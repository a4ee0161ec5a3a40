import Gems.Common
import Gems.Lib.Bytes

set_option autoImplicit false

namespace Gems.Storage

open Lib

def dataRegionSize : Nat := 16 * 1024 * 1024

def extentHeaderLen : Nat := 4 + 2 + 1 + 1 + 4 + 4

def bitmapBytes : Nat := 4096

def dataOffset : Nat := extentHeaderLen + bitmapBytes

@[irreducible] def extentSize : Nat := extentHeaderLen + bitmapBytes + dataRegionSize

def minBlockSize : Nat := 512

def maxBlockSize : Nat := dataRegionSize

structure BlockClass where
  index : Nat
  small : index < 16
  deriving DecidableEq

namespace BlockClass

def fromIndex (index : Nat) : Except Error BlockClass :=
  if h : index < 16 then .ok ⟨index, h⟩
  else .error (.invalidValue "block class index out of range")

-- The trailing zeros of a power of two are its logarithm.
def fromBlockSize (blockSize : Nat) : Except Error BlockClass :=
  if blockSize = 2 ^ blockSize.log2 ∧ minBlockSize ≤ blockSize ∧ blockSize ≤ maxBlockSize then
    fromIndex (blockSize.log2 - minBlockSize.log2)
  else .error (.invalidValue "block size must be a power of two between 512B and 16MiB")

def blockSize (c : BlockClass) : Nat := minBlockSize <<< c.index

def slotsPerExtent (c : BlockClass) : Nat := dataRegionSize / c.blockSize

-- The loop of for_size; from 512 bytes it takes at most 16 turns.
def growBlock : Nat → Nat → Nat → Except Error Nat
  | 0, blockSize, _ => .ok blockSize
  | turns + 1, blockSize, size =>
    if blockSize < size then
      if blockSize * 2 > maxBlockSize then
        .error (.invalidValue ("value exceeds the largest block class (16MiB); " ++
          "oversized-value chaining is not implemented"))
      else growBlock turns (blockSize * 2) size
    else .ok blockSize

def forSize (size : Nat) : Except Error BlockClass :=
  (growBlock 16 minBlockSize size).bind fromBlockSize

theorem blockSize_eq (c : BlockClass) : c.blockSize = 2 ^ (9 + c.index) := by
  rw [blockSize, Nat.shiftLeft_eq, Nat.pow_add]
  rfl

-- The slots of every class fill the data region exactly.
theorem slotsPerExtent_mul (c : BlockClass) : c.slotsPerExtent * c.blockSize = dataRegionSize := by
  obtain ⟨index, small⟩ := c
  have dvd : 2 ^ (9 + index) ∣ dataRegionSize := by
    rw [show dataRegionSize = 2 ^ 24 by rfl]
    exact Nat.pow_dvd_pow 2 (by omega)
  rw [slotsPerExtent, blockSize_eq]
  exact Nat.div_mul_cancel dvd

theorem slotsPerExtent_le (c : BlockClass) : c.slotsPerExtent ≤ bitmapBytes * 8 := by
  have whole := c.slotsPerExtent_mul
  have large : 512 ≤ c.blockSize := by
    rw [blockSize_eq, show 512 = 2 ^ 9 by rfl]
    exact Nat.pow_le_pow_right (by decide) (by omega)
  have : c.slotsPerExtent * 512 ≤ c.slotsPerExtent * c.blockSize := Nat.mul_le_mul_left _ large
  rw [whole] at this
  simp only [bitmapBytes, dataRegionSize] at *
  omega

theorem slotsPerExtent_pos (c : BlockClass) : 0 < c.slotsPerExtent := by
  rw [Nat.pos_iff_ne_zero]
  intro zero
  have whole := c.slotsPerExtent_mul
  rw [zero, Nat.zero_mul] at whole
  exact absurd whole (by decide)

theorem blockSize_double (k : Nat) : minBlockSize * 2 ^ k * 2 = minBlockSize * 2 ^ (k + 1) := by
  rw [Nat.pow_succ, Nat.mul_assoc]

theorem maxBlockSize_eq : maxBlockSize = minBlockSize * 2 ^ 15 := rfl

theorem growBlock_spec (size : Nat) {turns k : Nat} (room : turns + k = 16) (some : k < 16) :
    (∃ j < 16, growBlock turns (minBlockSize * 2 ^ k) size = .ok (minBlockSize * 2 ^ j) ∧
      size ≤ minBlockSize * 2 ^ j) ∨
    (maxBlockSize < size ∧ ∃ error, growBlock turns (minBlockSize * 2 ^ k) size = .error error) := by
  induction turns generalizing k with
  | zero => omega
  | succ turns ih =>
    rw [growBlock]
    by_cases small : minBlockSize * 2 ^ k < size
    · rw [if_pos small, blockSize_double]
      by_cases last : k = 15
      · subst last
        have past : minBlockSize * 2 ^ (15 + 1) > maxBlockSize := by decide
        rw [if_pos past]
        exact .inr ⟨small, _, rfl⟩
      · have more : minBlockSize * 2 ^ (k + 1) ≤ maxBlockSize := by
          rw [maxBlockSize_eq]
          exact Nat.mul_le_mul_left _ (Nat.pow_le_pow_right (by decide) (by omega))
        rw [if_neg (by omega)]
        exact ih (by omega) (by omega)
    · rw [if_neg small]
      exact .inl ⟨k, some, rfl, by omega⟩

theorem fromBlockSize_pow {j : Nat} (small : j < 16) :
    fromBlockSize (minBlockSize * 2 ^ j) = .ok ⟨j, small⟩ := by
  have all : ∀ j : Fin 16, fromBlockSize (minBlockSize * 2 ^ j.val) = .ok ⟨j.val, j.isLt⟩ := by decide
  exact all ⟨j, small⟩

theorem forSize_spec (size : Nat) :
    (∃ c : BlockClass, forSize size = .ok c ∧ size ≤ c.blockSize) ∨
      (maxBlockSize < size ∧ ∃ error, forSize size = .error error) := by
  have start : minBlockSize = minBlockSize * 2 ^ 0 := rfl
  rw [forSize, start]
  rcases growBlock_spec size (show 16 + 0 = 16 from rfl) (by decide) with
    ⟨j, small, found, fits⟩ | ⟨large, error, none⟩
  · refine .inl ⟨⟨j, small⟩, ?_, ?_⟩
    · rw [found]
      exact fromBlockSize_pow small
    · rw [blockSize, Nat.shiftLeft_eq]
      exact fits
  · rw [none]
    exact .inr ⟨large, error, rfl⟩

theorem blockSize_le (c : BlockClass) : c.blockSize ≤ maxBlockSize := by
  rw [blockSize, Nat.shiftLeft_eq, maxBlockSize_eq]
  exact Nat.mul_le_mul_left _ (Nat.pow_le_pow_right (by decide) (by have := c.small; omega))
end BlockClass

structure ExtentHeader where
  magic : Nat
  formatVersion : Nat
  blockClass : Nat
  reserved : Nat
  slotCount : Nat
  freeCount : Nat

def extentMagic : Nat := 0x47454d31

def ExtentHeader.new (c : BlockClass) : ExtentHeader :=
  { magic := extentMagic
    formatVersion := 1
    blockClass := c.index
    reserved := 0
    slotCount := c.slotsPerExtent
    freeCount := c.slotsPerExtent }

namespace Bitmap

-- `base` is where the bitmap starts in the file.
def get (bytes : Bytes) (base slot : Nat) : Bool := bit (bytes (base + slot / 8)) (slot % 8)

def set (bytes : Bytes) (base slot : Nat) (value : Bool) : Bytes :=
  patch bytes (base + slot / 8) [setBit (bytes (base + slot / 8)) (slot % 8) value]

-- The first free slot below `slotCount`; claiming it is a `set`.
def firstFree (bytes : Bytes) (base slotCount : Nat) : Option Nat :=
  (List.range slotCount).find? fun slot => !get bytes base slot

theorem set_outside {bytes : Bytes} {base slot i : Nat} {value : Bool} (other : i ≠ base + slot / 8) :
    set bytes base slot value i = bytes i :=
  patch_outside (by
    simp only [List.length_singleton]
    omega)

theorem get_set (bytes : Bytes) (base slot slot' : Nat) (value : Bool) :
    get (set bytes base slot value) base slot' =
      if slot = slot' then value else get bytes base slot' := by
  unfold get
  by_cases byte : slot' / 8 = slot / 8
  · have here : set bytes base slot value (base + slot / 8) =
        setBit (bytes (base + slot / 8)) (slot % 8) value :=
      patch_singleton _
    rw [byte, here, bit_setBit _ _ (Nat.mod_lt _ (by decide)) (Nat.mod_lt _ (by decide))]
    by_cases same : slot = slot'
    · simp [same]
    · rw [if_neg same, if_neg (by omega)]
  · rw [set_outside (by omega), if_neg (by rintro rfl; exact byte rfl)]

theorem firstFree_some {bytes : Bytes} {base slotCount slot : Nat}
    (h : firstFree bytes base slotCount = some slot) :
    slot < slotCount ∧ get bytes base slot = false := by
  have inside := List.mem_of_find?_eq_some h
  have free := List.find?_some h
  exact ⟨List.mem_range.mp inside, by simpa using free⟩

theorem firstFree_blank {bytes : Bytes} {base slotCount : Nat} (positive : 0 < slotCount)
    (blank : bytes base = 0) : firstFree bytes base slotCount = some 0 := by
  obtain ⟨n, rfl⟩ := Nat.exists_eq_add_of_lt positive
  rw [firstFree, Nat.zero_add, List.range_succ_eq_map, List.find?_cons_of_pos]
  simp [get, blank, bit]

end Bitmap

structure SlotPointer where
  fileId : UInt32
  extentIndex : UInt32
  slotIndex : UInt32
  blockClass : UInt8
  deriving DecidableEq, Repr

-- An extent file as it is on disk.
structure DiskFile where
  bytes : Bytes
  len : Nat

-- `bytes` is the mapping; what lies between `fileLen` and `mappedLen` never reaches the disk.
structure ExtentFile where
  bytes : Bytes
  fileLen : Nat
  mappedLen : Nat
  writable : Bool

namespace ExtentFile

open Prog

def create : ExtentFile := { bytes := fun _ => 0, fileLen := 0, mappedLen := 0, writable := true }

def onDisk (f : ExtentFile) : DiskFile := { bytes := truncate f.bytes f.fileLen, len := f.fileLen }

def openFile (page : PageSize) (disk : DiskFile) (writable : Bool) : ExtentFile :=
  { bytes := disk.bytes
    fileLen := disk.len
    mappedLen := if disk.len = 0 then 0 else roundUpToOsPage page disk.len
    writable }

def growByOneExtent (page : PageSize) : Gems.Prog ExtentFile Nat := do
  let f ← view
  if !f.writable then raise (.invalidValue "cannot grow a read-only extent file")
  else do
    let oldLen := f.mappedLen
    let newLen := oldLen + extentSize
    request fun f => { f with bytes := truncate f.bytes f.fileLen, fileLen := newLen }
    update fun f => { f with mappedLen := roundUpToOsPage page newLen }
    pure oldLen

-- A flush changes nothing that a read of the file returns.
def syncRange : Gems.Prog ExtentFile Unit := flush

-- `as_mut_slice()?[offset..offset + data.len()].copy_from_slice(data)`
def put (offset : Nat) (data : List UInt8) : Gems.Prog ExtentFile Unit := do
  let f ← view
  if !f.writable then raise (.invalidValue "extent file is not writable")
  else if offset + data.length ≤ f.mappedLen then
    write fun f => { f with bytes := patch f.bytes offset data }
  else fail .panicked

end ExtentFile

end Gems.Storage
