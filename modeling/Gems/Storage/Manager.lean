import Gems.Storage.Extent

set_option autoImplicit false

namespace Gems.Storage

open Lib Prog

structure ExtentManager where
  file : ExtentFile
  fileId : UInt32
  extents : List BlockClass

namespace ExtentManager

def create (fileId : UInt32) : ExtentManager := { file := .create, fileId, extents := [] }

-- The class byte of every whole extent of the mapping, at offset 6 of its header.
def openFile (page : PageSize) (disk : DiskFile) (fileId : UInt32) (writable : Bool) :
    Except Error ExtentManager := do
  let file := ExtentFile.openFile page disk writable
  let extentCount := file.mappedLen / extentSize
  let extents ← (List.range extentCount).mapM fun i =>
    BlockClass.fromIndex (file.bytes (i * extentSize + 6)).toNat
  pure { file, fileId, extents }

def onFile {A : Type} (m : Gems.Prog ExtentFile A) : Gems.Prog ExtentManager A :=
  focus ExtentManager.file (fun s file => { s with file }) m

def extentOffset (extentIndex : UInt32) : Nat := extentIndex.toNat * extentSize

def initExtentHeader (extentIndex : UInt32) (c : BlockClass) : Gems.Prog ExtentManager Unit := do
  let header := ExtentHeader.new c
  let base := extentOffset extentIndex
  onFile (ExtentFile.put base (littleEndian 4 header.magic))
  onFile (ExtentFile.put (base + 4) (littleEndian 2 header.formatVersion))
  onFile (ExtentFile.put (base + 6) [UInt8.ofNat header.blockClass])
  onFile (ExtentFile.put (base + 7) [UInt8.ofNat header.reserved])
  onFile (ExtentFile.put (base + 8) (littleEndian 4 header.slotCount))
  onFile (ExtentFile.put (base + 12) (littleEndian 4 header.freeCount))
  onFile ExtentFile.syncRange

def tryAllocateInExtent (extentIndex : UInt32) (c : BlockClass) :
    Gems.Prog ExtentManager (Option UInt32) := do
  let s ← view
  let bitmapBase := extentOffset extentIndex + extentHeaderLen
  if !s.file.writable then raise (.invalidValue "extent file is not writable")
  else if bitmapBase + bitmapBytes ≤ s.file.mappedLen then
    match Bitmap.firstFree s.file.bytes bitmapBase c.slotsPerExtent with
    | some slot => do
      write fun s => { s with file.bytes := Bitmap.set s.file.bytes bitmapBase slot true }
      onFile ExtentFile.syncRange
      pure (some (UInt32.ofNat slot))
    | none => pure none
  else fail .panicked

def tryExtents (c : BlockClass) : List UInt32 → Gems.Prog ExtentManager (Option (UInt32 × UInt32))
  | [] => pure none
  | idx :: rest => do
    match ← tryAllocateInExtent idx c with
    | some slot => pure (some (idx, slot))
    | none => tryExtents c rest

def candidateIndices (s : ExtentManager) (c : BlockClass) : List UInt32 :=
  (s.extents.zipIdx.filter fun (class_, _) => class_ = c).map fun (_, idx) => UInt32.ofNat idx

-- The growing half of allocate.
def allocateInNewExtent (page : PageSize) (c : BlockClass) :
    Gems.Prog ExtentManager (UInt32 × UInt32) := do
  let offset ← onFile (ExtentFile.growByOneExtent page)
  let extentIndex := UInt32.ofNat (offset / extentSize)
  initExtentHeader extentIndex c
  update fun s => { s with extents := s.extents ++ [c] }
  match ← tryAllocateInExtent extentIndex c with
  | some slot => pure (extentIndex, slot)
  | none => fail .panicked

def allocate (page : PageSize) (size : Nat) : Gems.Prog ExtentManager SlotPointer := do
  let s ← view
  let c ← ofExcept (BlockClass.forSize size)
  let found ← tryExtents c (s.candidateIndices c)
  let (extentIndex, slotIndex) ← match found with
    | some found => pure found
    | none => allocateInNewExtent page c
  pure { fileId := s.fileId, extentIndex, slotIndex, blockClass := UInt8.ofNat c.index }

def slotOffset (s : ExtentManager) (ptr : SlotPointer) : Except Error (Nat × BlockClass) := do
  if ptr.fileId ≠ s.fileId then
    throw (.invalidValue "SlotPointer belongs to a different file")
  let c ← BlockClass.fromIndex ptr.blockClass.toNat
  pure (extentOffset ptr.extentIndex + dataOffset + ptr.slotIndex.toNat * c.blockSize, c)

def writeSlot (ptr : SlotPointer) (data : List UInt8) : Gems.Prog ExtentManager Unit := do
  let s ← view
  let (base, c) ← ofExcept (s.slotOffset ptr)
  if data.length > c.blockSize then
    raise (.invalidValue "data does not fit in the slot's block class")
  else do
    onFile (ExtentFile.put base data)
    onFile ExtentFile.syncRange

def read (s : ExtentManager) (ptr : SlotPointer) (len : Nat) : Except Fault (List UInt8) :=
  match s.slotOffset ptr with
  | .error e => .error (.raised e)
  | .ok (base, c) =>
    if len > c.blockSize then
      .error (.raised (.invalidValue "requested length exceeds the slot's block class"))
    else if base + len ≤ s.file.mappedLen then .ok (slice s.file.bytes base len)
    else .error .panicked

def free (ptr : SlotPointer) : Gems.Prog ExtentManager Unit := do
  let s ← view
  if ptr.fileId ≠ s.fileId then raise (.invalidValue "SlotPointer belongs to a different file")
  else if !s.file.writable then raise (.invalidValue "extent file is not writable")
  else
    let bitmapBase := extentOffset ptr.extentIndex + extentHeaderLen
    if bitmapBase + bitmapBytes ≤ s.file.mappedLen ∧ ptr.slotIndex.toNat / 8 < bitmapBytes then do
      write fun s =>
        { s with file.bytes := Bitmap.set s.file.bytes bitmapBase ptr.slotIndex.toNat false }
      onFile ExtentFile.syncRange
    else fail .panicked

end ExtentManager

end Gems.Storage
