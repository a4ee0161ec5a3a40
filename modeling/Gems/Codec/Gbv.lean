import Gems.Common
import Gems.Lib.Bytes
import Gems.Lib.SortByKey

set_option autoImplicit false

namespace Gems.Codec

open Lib

def directoryEntryLen : Nat := 4 + 1 + 4 + 4

inductive TypeTag where
  | int64 | float64 | bool | str | bin | point2D | point3D | poly2D | poly3D | geo2D | geo3D | ipv4
  | ipv6 | cidr4 | cidr6 | regex | currency | dateTime | duration | uuid | enumRef | array | entityRef
  deriving DecidableEq, Repr

namespace TypeTag

-- In the order of their numbers, from 0.
def all : List TypeTag :=
  [int64, float64, bool, str, bin, point2D, point3D, poly2D, poly3D, geo2D, geo3D, ipv4, ipv6, cidr4,
    cidr6, regex, currency, dateTime, duration, uuid, enumRef, array, entityRef]

def fromU8 (v : UInt8) : Except Error TypeTag :=
  match all[v.toNat]? with
  | some tag => .ok tag
  | none => .error (.invalidValue "unknown GBV type tag")

def toU8 (tag : TypeTag) : UInt8 := UInt8.ofNat (all.idxOf tag)

theorem fromU8_toU8 (tag : TypeTag) : fromU8 tag.toU8 = .ok tag := by
  cases tag <;> rfl

end TypeTag

structure DirEntry where
  keyId : UInt32
  typeTag : UInt8
  offset : UInt32
  len : UInt32

def DirEntry.encode (e : DirEntry) : List UInt8 :=
  littleEndian 4 e.keyId.toNat ++ ([e.typeTag] ++ (littleEndian 4 e.offset.toNat ++ littleEndian 4 e.len.toNat))

structure GbvBuilder where
  entries : List DirEntry
  values : List UInt8

namespace GbvBuilder

def new : GbvBuilder := { entries := [], values := [] }

-- Offsets and lengths are written as their low 32 bits.
def push (b : GbvBuilder) (keyId : UInt32) (typeTag : TypeTag) (value : List UInt8) : GbvBuilder :=
  let entry : DirEntry :=
    { keyId
      typeTag := typeTag.toU8
      offset := UInt32.ofNat b.values.length
      len := UInt32.ofNat value.length }
  { entries := b.entries ++ [entry], values := b.values ++ value }

-- The number of entries is written as its low 16 bits.
def finish (b : GbvBuilder) : List UInt8 :=
  let entries := sortByKey (fun e => e.keyId.toNat) b.entries
  littleEndian 2 entries.length ++ (entries.flatMap DirEntry.encode ++ b.values)

end GbvBuilder

structure GbvReader where
  buf : List UInt8
  fieldCount : Nat
  valuesStart : Nat

namespace GbvReader

def new (buf : List UInt8) : Except Error GbvReader :=
  if buf.length < 2 then .error (.invalidValue "GBV buffer too short for header")
  else
    let fieldCount := ofLittleEndian (buf.take 2)
    let valuesStart := 2 + fieldCount * directoryEntryLen
    if buf.length < valuesStart then .error (.invalidValue "GBV buffer too short for directory")
    else .ok { buf, fieldCount, valuesStart }

def u32At (buf : List UInt8) (pos : Nat) : UInt32 := UInt32.ofNat (ofLittleEndian ((buf.drop pos).take 4))

-- Only for indices below `fieldCount`, so inside the buffer.
def entryAt (r : GbvReader) (i : Nat) : DirEntry :=
  let base := 2 + i * directoryEntryLen
  { keyId := u32At r.buf base
    typeTag := r.buf.getD (base + 4) 0
    offset := u32At r.buf (base + 5)
    len := u32At r.buf (base + 9) }

def fieldBytes (r : GbvReader) (entry : DirEntry) : Option (List UInt8) :=
  let start := r.valuesStart + entry.offset.toNat
  let stop := start + entry.len.toNat
  if stop > r.buf.length then none else some ((r.buf.drop start).take entry.len.toNat)

-- The range at least halves, so `fieldCount + 1` turns are enough.
def search (r : GbvReader) (keyId : UInt32) : Nat → Nat → Nat → Option (TypeTag × List UInt8)
  | 0, _, _ => none
  | turns + 1, lo, hi =>
    if lo < hi then
      let mid := lo + (hi - lo) / 2
      let e := r.entryAt mid
      if e.keyId = keyId then do
        let tag ← (TypeTag.fromU8 e.typeTag).toOption
        let bytes ← r.fieldBytes e
        return (tag, bytes)
      else if e.keyId < keyId then search r keyId turns (mid + 1) hi
      else search r keyId turns lo mid
    else none

def get (r : GbvReader) (keyId : UInt32) : Option (TypeTag × List UInt8) :=
  r.search keyId (r.fieldCount + 1) 0 r.fieldCount

def keyIds (r : GbvReader) : List UInt32 := (List.range r.fieldCount).map fun i => (r.entryAt i).keyId

def redactStep (r : GbvReader) (exclude : List UInt32) (builder : GbvBuilder) (i : Nat) : GbvBuilder :=
  let entry := r.entryAt i
  if entry.keyId ∈ exclude then builder
  else
    match TypeTag.fromU8 entry.typeTag, r.fieldBytes entry with
    | .ok tag, some bytes => builder.push entry.keyId tag bytes
    | _, _ => builder

def redact (r : GbvReader) (exclude : List UInt32) : List UInt8 :=
  ((List.range r.fieldCount).foldl (r.redactStep exclude) .new).finish

end GbvReader

end Gems.Codec
