import Gems.Catalog.Header
import Gems.Catalog.Util
import Gems.Codec.Gbv

set_option autoImplicit false

namespace Gems.Catalog

open Lib Codec

section EntityAttribute

def formatTemplateMax : Nat := 32

inductive Cardinality where
  | single | multiple
  deriving DecidableEq

def Cardinality.toU8 : Cardinality → UInt8
  | single => 0
  | multiple => 1

def Cardinality.fromU8 (v : UInt8) : Except Fault Cardinality :=
  match v.toNat with
  | 0 => .ok single
  | 1 => .ok multiple
  | _ => .error (invalid "unknown cardinality")

inductive Indexed where
  | none | bitmap | bTree
  deriving DecidableEq

def Indexed.toU8 : Indexed → UInt8
  | none => 0
  | bitmap => 1
  | bTree => 2

def Indexed.fromU8 (v : UInt8) : Except Fault Indexed :=
  match v.toNat with
  | 0 => .ok none
  | 1 => .ok bitmap
  | 2 => .ok bTree
  | _ => .error (invalid "unknown indexed mode")

-- The bounds are the bits of an f64.
structure ValidationRule where
  min : Option UInt64
  max : Option UInt64
  regexRef : Tuid
  enumRef : Tuid
  precision : UInt8

structure FormatRule where
  template : String

structure EntityAttribute where
  prototype : TypeTag
  cardinality : Cardinality
  nullable : Bool
  indexed : Indexed
  validation : ValidationRule
  format : FormatRule

namespace EntityAttribute

def fixedLen : Nat := 1 + 1 + 1 + 1 + 1 + 8 + 1 + 8 + tuidLen + tuidLen + 1 + 1

def encodeBound (bound : Option UInt64) : List UInt8 :=
  flagByte bound.isSome ++ littleEndian 8 (bound.getD 0).toNat

def encode (a : EntityAttribute) : List UInt8 :=
  let template := truncateUtf8 a.format.template formatTemplateMax
  [a.prototype.toU8] ++ ([a.cardinality.toU8] ++ (flagByte a.nullable ++ ([a.indexed.toU8] ++
    (encodeBound a.validation.min ++ (encodeBound a.validation.max ++ (a.validation.regexRef.bytes ++
    (a.validation.enumRef.bytes ++ ([a.validation.precision] ++ (littleEndian 1 template.length ++ template)))))))))

-- The fixed part is long enough for all but the template.
def flag : Reader Fault Bool := do
  let b ← Reader.byte .panicked
  return b != 0

def readBound : Reader Fault (Option UInt64) := do
  let present ← flag
  let raw ← Reader.number .panicked 8
  return if present then some (UInt64.ofNat raw) else none

def readFields : Reader Fault EntityAttribute := do
  let prototype ← Reader.byte .panicked
  let prototype ← Reader.ofExcept ((TypeTag.fromU8 prototype).mapError .raised)
  let cardinality ← Reader.byte .panicked
  let cardinality ← Reader.ofExcept (Cardinality.fromU8 cardinality)
  let nullable ← flag
  let indexed ← Reader.byte .panicked
  let indexed ← Reader.ofExcept (Indexed.fromU8 indexed)
  let min ← readBound
  let max ← readBound
  let regexRef ← Reader.take .panicked tuidLen
  let enumRef ← Reader.take .panicked tuidLen
  let precision ← Reader.byte .panicked
  let templateLen ← Reader.byte .panicked
  let template ← Reader.take (invalid "EntityAttribute format template truncated") templateLen.toNat
  return {
    prototype, cardinality, nullable, indexed
    validation := { min, max, regexRef := Tuid.fromBytes regexRef, enumRef := Tuid.fromBytes enumRef, precision }
    format := { template := fromUtf8Lossy template } }

def decode (buf : List UInt8) : Except Fault EntityAttribute :=
  if buf.length < fixedLen then .error (invalid "EntityAttribute buffer too short")
  else (readFields buf).map Prod.fst

end EntityAttribute

end EntityAttribute

section EntityType

inductive EntityTypeKind where
  | structural | auxiliary
  deriving DecidableEq

def EntityTypeKind.toU8 : EntityTypeKind → UInt8
  | structural => 0
  | auxiliary => 1

def EntityTypeKind.fromU8 (v : UInt8) : Except Fault EntityTypeKind :=
  match v.toNat with
  | 0 => .ok structural
  | 1 => .ok auxiliary
  | _ => .error (invalid "unknown EntityType kind")

structure AttributeRef where
  attributeId : Tuid
  required : Bool
  default_ : Option (List UInt8)

structure EntityType where
  kind : EntityTypeKind
  attributes : List AttributeRef
  compatibleWith : List Tuid
  incompatibleWith : List Tuid

namespace EntityType

def encodeAttribute (a : AttributeRef) : List UInt8 :=
  a.attributeId.bytes ++ (flagByte a.required ++ writeOptionalBytes a.default_)

def encode (t : EntityType) : List UInt8 :=
  [t.kind.toU8] ++ (littleEndian 2 t.attributes.length ++
    (t.attributes.flatMap encodeAttribute ++ (writeTuidList t.compatibleWith ++ writeTuidList t.incompatibleWith)))

def readAttribute : Reader Fault AttributeRef := do
  let attributeId ← readTuid
  let required ← readU8 >>= fun b => pure (b != 0)
  let default_ ← readOptionalBytes
  return { attributeId, required, default_ }

def read : Reader Fault EntityType := do
  let kind ← readU8
  let kind ← Reader.ofExcept (EntityTypeKind.fromU8 kind)
  let count ← readU16
  let attributes ← readAttribute.times count
  let compatibleWith ← readTuidList
  let incompatibleWith ← readTuidList
  return { kind, attributes, compatibleWith, incompatibleWith }

def decode (buf : List UInt8) : Except Fault EntityType := (read buf).map Prod.fst

end EntityType

end EntityType

section RoundTrip

variable (a : EntityAttribute) (t : EntityType)

theorem cardinality_fromU8_toU8 (c : Cardinality) : Cardinality.fromU8 c.toU8 = .ok c := by
  cases c <;> rfl

theorem indexed_fromU8_toU8 (i : Indexed) : Indexed.fromU8 i.toU8 = .ok i := by
  cases i <;> rfl

theorem entityTypeKind_fromU8_toU8 (k : EntityTypeKind) : EntityTypeKind.fromU8 k.toU8 = .ok k := by
  cases k <;> rfl

theorem decodes_of_reads {A : Type} {m : Reader Fault A} {bytes : List UInt8} {x : A}
    (reads : Reader.Reads m bytes x) : (m bytes).map Prod.fst = .ok x := by
  have whole := reads []
  rw [List.append_nil] at whole
  rw [whole]
  rfl

theorem reads_panicking_flag (present : Bool) : Reader.Reads EntityAttribute.flag (flagByte present) present := by
  have byte : Reader.Reads (Reader.byte (.panicked : Fault)) (flagByte present) (if present then 1 else 0) := .byte _
  have whole := byte.result fun b => b != 0
  cases present <;> exact whole

theorem reads_bound (bound : Option UInt64) :
    Reader.Reads EntityAttribute.readBound (EntityAttribute.encodeBound bound) bound := by
  have raw : Reader.Reads (Reader.number (.panicked : Fault) 8) _ (bound.getD 0).toNat := .number (UInt64.toNat_lt _)
  have whole : Reader.Reads EntityAttribute.readBound (EntityAttribute.encodeBound bound)
      (if bound.isSome then some (UInt64.ofNat (bound.getD 0).toNat) else none) :=
    .bind (reads_panicking_flag bound.isSome)
      (raw.result fun raw => if bound.isSome then some (UInt64.ofNat raw) else none)
  cases bound with
  | none => exact whole
  | some v => simpa using whole

def EntityAttribute.Fits : Prop := (utf8 a.format.template).length ≤ formatTemplateMax

structure EntityType.Fits : Prop where
  attributes : Short t.attributes
  defaults : ∀ a ∈ t.attributes, ∀ b ∈ a.default_, Short b
  compatibleWith : Short t.compatibleWith
  incompatibleWith : Short t.incompatibleWith

variable {a t}

theorem EntityAttribute.decode_encode (fits : a.Fits) : decode a.encode = .ok a := by
  have whole : truncateUtf8 a.format.template formatTemplateMax = utf8 a.format.template := if_pos fits
  have small : (utf8 a.format.template).length < 256 := Nat.lt_of_le_of_lt fits (by decide)
  have reads : Reader.Reads readFields a.encode a := by
    rw [encode, whole, readFields]
    refine .bind (.byte a.prototype.toU8) ?_
    rw [TypeTag.fromU8_toU8]
    refine .known (.bind (.byte a.cardinality.toU8) ?_)
    rw [cardinality_fromU8_toU8]
    refine .known (.bind (reads_panicking_flag a.nullable) (.bind (.byte a.indexed.toU8) ?_))
    rw [indexed_fromU8_toU8]
    refine .known (.bind (reads_bound a.validation.min) (.bind (reads_bound a.validation.max)
      (.bind (.take a.validation.regexRef.length_eq) (.bind (.take a.validation.enumRef.length_eq)
        (.bind (.byte a.validation.precision) ?_)))))
    have length : littleEndian 1 (utf8 a.format.template).length = [UInt8.ofNat (utf8 a.format.template).length] := rfl
    rw [length]
    refine .bind (.byte _) ?_
    rw [UInt8.toNat_ofNat_of_lt' small]
    have last : Reader.Reads (Reader.take (invalid "EntityAttribute format template truncated")
        (utf8 a.format.template).length) (utf8 a.format.template) (utf8 a.format.template) := .take rfl
    have read := last.result fun template => ({ a with format := { template := fromUtf8Lossy template } } :
      EntityAttribute)
    simpa [fromUtf8Lossy_utf8, Tuid.fromBytes_bytes] using read
  have long : ¬ a.encode.length < fixedLen := by
    simp [encode, encodeBound, flagByte, fixedLen, a.validation.regexRef.length_eq, a.validation.enumRef.length_eq]
    omega
  rw [decode, if_neg long, decodes_of_reads reads]

def AttributeRef.kept (r : AttributeRef) : AttributeRef := { r with default_ := keptBytes r.default_ }

theorem reads_attribute {r : AttributeRef} (fits : ∀ b ∈ r.default_, Short b) :
    Reader.Reads EntityType.readAttribute (EntityType.encodeAttribute r) r.kept :=
  .bind (reads_tuid r.attributeId) (.bind (reads_flag r.required) ((reads_optionalBytes fits).result
    fun default_ => ({ r with default_ } : AttributeRef)))

theorem EntityType.decode_encode (fits : t.Fits) :
    decode t.encode = .ok { t with attributes := t.attributes.map AttributeRef.kept } := by
  apply decodes_of_reads
  refine .bind (.byte t.kind.toU8) ?_
  rw [entityTypeKind_fromU8_toU8]
  have attributes := Reader.Reads.times t.attributes fun r mem => reads_attribute (fits.defaults r mem)
  refine .known (.bind (.number fits.attributes) (.bind attributes (.bind (reads_tuidList fits.compatibleWith) ?_)))
  exact (reads_tuidList fits.incompatibleWith).result fun incompatibleWith =>
    ({ t with attributes := t.attributes.map AttributeRef.kept, incompatibleWith } : EntityType)

end RoundTrip

end Gems.Catalog
