import Gems.Common
import Gems.Lib.Reader
import Gems.Lib.Utf8
import Gems.Tuid

set_option autoImplicit false

namespace Gems.Catalog

open Lib

def invalid (detail : String) : Fault := .raised (.invalidValue detail)

def truncated : Fault := invalid "buffer truncated"

section Primitives

def readU8 : Reader Fault UInt8 := Reader.byte (invalid "buffer truncated reading u8")

def readU16 : Reader Fault Nat := Reader.number truncated 2

def readI64 : Reader Fault Int64 := do
  let n ← Reader.number truncated 8
  return (UInt64.ofNat n).toInt64

def readTuid : Reader Fault Tuid := do
  let bytes ← Reader.take truncated tuidLen
  return Tuid.fromBytes bytes

-- The length is written as its low 16 bits, here as for the lists.
def writeU16Prefixed (bytes : List UInt8) : List UInt8 := littleEndian 2 bytes.length ++ bytes

def readU16Prefixed : Reader Fault (List UInt8) := do
  let len ← readU16
  Reader.take truncated len

def writeStringPrefixed (s : String) : List UInt8 := writeU16Prefixed (utf8 s)

def readStringPrefixed : Reader Fault String := do
  let bytes ← readU16Prefixed
  return fromUtf8Lossy bytes

def writeTuidList (list : List Tuid) : List UInt8 := littleEndian 2 list.length ++ list.flatMap Tuid.bytes

def readTuidList : Reader Fault (List Tuid) := do
  let count ← readU16
  readTuid.times count

def writeOptionalBytes : Option (List UInt8) → List UInt8
  | some bytes => writeU16Prefixed bytes
  | none => littleEndian 2 0

def readOptionalBytes : Reader Fault (Option (List UInt8)) := do
  let bytes ← readU16Prefixed
  return if bytes.isEmpty then none else some bytes

-- A flag in front of a value that is there in any case.
def flagByte (present : Bool) : List UInt8 := [if present then 1 else 0]

end Primitives

section RoundTrip

def Short {A : Type} (list : List A) : Prop := list.length < 256 ^ 2

def keptBytes (bytes : Option (List UInt8)) : Option (List UInt8) := bytes.filter fun b => !b.isEmpty

theorem keptBytes_eq_iff {bytes : Option (List UInt8)} : keptBytes bytes = bytes ↔ bytes ≠ some [] := by
  cases bytes with
  | none => simp [keptBytes]
  | some bytes => cases bytes <;> simp [keptBytes]

theorem reads_i64 (v : Int64) : Reader.Reads readI64 (littleEndian 8 v.toUInt64.toNat) v := by
  have bytes : Reader.Reads (Reader.number truncated 8) _ v.toUInt64.toNat := .number v.toUInt64.toNat_lt
  have whole := bytes.result fun n => (UInt64.ofNat n).toInt64
  rwa [UInt64.ofNat_toNat, Int64.toInt64_toUInt64] at whole

theorem reads_tuid (t : Tuid) : Reader.Reads readTuid t.bytes t := by
  have bytes : Reader.Reads (Reader.take truncated tuidLen) t.bytes t.bytes := .take t.length_eq
  have whole := bytes.result Tuid.fromBytes
  rwa [Tuid.fromBytes_bytes] at whole

theorem reads_u16Prefixed {bytes : List UInt8} (fits : Short bytes) :
    Reader.Reads readU16Prefixed (writeU16Prefixed bytes) bytes :=
  .bind (.number fits) (.take rfl)

theorem reads_stringPrefixed {s : String} (fits : Short (utf8 s)) :
    Reader.Reads readStringPrefixed (writeStringPrefixed s) s := by
  have whole := (reads_u16Prefixed fits).result fromUtf8Lossy
  rwa [fromUtf8Lossy_utf8] at whole

theorem reads_tuidList {list : List Tuid} (fits : Short list) :
    Reader.Reads readTuidList (writeTuidList list) list := by
  have items : Reader.Reads (readTuid.times list.length) (list.flatMap Tuid.bytes) (list.map id) :=
    .times list fun t _ => reads_tuid t
  rw [List.map_id] at items
  exact .bind (.number fits) items

theorem reads_optionalBytes {bytes : Option (List UInt8)} (fits : ∀ b ∈ bytes, Short b) :
    Reader.Reads readOptionalBytes (writeOptionalBytes bytes) (keptBytes bytes) := by
  cases bytes with
  | none =>
    have empty : Reader.Reads readU16Prefixed (writeU16Prefixed []) [] := reads_u16Prefixed (by simp [Short])
    exact empty.result fun b => if b.isEmpty then none else some b
  | some bytes =>
    have whole := (reads_u16Prefixed (fits bytes rfl)).result fun b => if b.isEmpty then none else some b
    have kept : keptBytes (some bytes) = if bytes.isEmpty then none else some bytes := by
      cases bytes <;> simp [keptBytes]
    rw [kept]
    exact whole

theorem reads_flag (present : Bool) :
    Reader.Reads (readU8 >>= fun b => pure (b != 0)) (flagByte present) present := by
  have byte : Reader.Reads readU8 (flagByte present) (if present then 1 else 0) := .byte _
  have whole := byte.result fun b => b != 0
  cases present <;> exact whole

end RoundTrip

end Gems.Catalog
