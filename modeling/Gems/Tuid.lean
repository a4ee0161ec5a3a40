import Mathlib.Data.List.Lex
import Mathlib.Order.Lattice

set_option autoImplicit false

namespace Gems

def tuidLen : Nat := 24

/-- 16 random bytes and a big-endian creation time; compared byte by byte. -/
structure Tuid where
  bytes : List UInt8
  length_eq : bytes.length = tuidLen

namespace Tuid

def key (t : Tuid) : List Nat := t.bytes.map UInt8.toNat

theorem key_injective : Function.Injective key := by
  intro a b same
  have bytes : a.bytes = b.bytes := List.map_injective_iff.mpr (fun _ _ => UInt8.toNat_inj.mp) same
  cases a
  cases b
  simpa using bytes

instance : LinearOrder Tuid := LinearOrder.lift' key key_injective

def nil : Tuid := { bytes := List.replicate tuidLen 0, length_eq := List.length_replicate }

def fromBytes (bytes : List UInt8) : Tuid := if h : bytes.length = tuidLen then ⟨bytes, h⟩ else nil

-- The creation time, big-endian.
def createdAtNs (t : Tuid) : UInt64 :=
  UInt64.ofNat ((t.bytes.drop 16).foldl (fun n b => n * 256 + b.toNat) 0)

theorem fromBytes_bytes (t : Tuid) : fromBytes t.bytes = t := dif_pos t.length_eq

end Tuid

end Gems
