import Gems.Index.Node

set_option autoImplicit false

namespace Gems.Index

open Lib Prog Storage

def magic : Nat := 0x47454d49

def headerPageId : Nat := 0

structure Header where
  magic : Nat
  formatVersion : Nat
  pageSize : Nat
  keyLen : Nat
  valueLen : Nat
  rootPage : Nat
  freeListHead : Nat
  pageCount : Nat
  commitSeq : Nat

def headerEncodedLen : Nat := 4 + 2 + 4 + 2 + 2 + 4 + 4 + 4 + 8

def rootPageOffset : Nat := 4 + 2 + 4 + 2 + 2

def Header.encode (h : Header) : List UInt8 :=
  littleEndian 4 h.magic ++ (littleEndian 2 h.formatVersion ++ (littleEndian 4 h.pageSize ++
    (littleEndian 2 h.keyLen ++ (littleEndian 2 h.valueLen ++ (littleEndian 4 h.rootPage ++
      (littleEndian 4 h.freeListHead ++ (littleEndian 4 h.pageCount ++
        littleEndian 8 h.commitSeq)))))))

def Header.decode (buf : List UInt8) : Except Fault Header :=
  if buf.length < headerEncodedLen then .error (corrupt "index header truncated")
  else
    let field (offset width : Nat) : Nat := ofLittleEndian ((buf.drop offset).take width)
    if field 0 4 ≠ Index.magic then .error (corrupt "index header magic mismatch")
    else .ok
      { magic := field 0 4
        formatVersion := field 4 2
        pageSize := field 6 4
        keyLen := field 10 2
        valueLen := field 12 2
        rootPage := field 14 4
        freeListHead := field 18 4
        pageCount := field 22 4
        commitSeq := field 26 8 }

-- A mapped index file: `fileLen` bytes of it reach the disk. `held` is no data of the program: for
-- every OS page, the contents of the file since the last flush of that page, newest first. A machine
-- that stops leaves any one of them on disk.
structure Pager where
  bytes : Bytes
  fileLen : Nat
  mappedLen : Nat
  header : Header
  held : Nat → List Bytes

namespace Pager

def fileOffset (p : Pager) (pageId : Nat) : Nat := pageId * p.header.pageSize

def store (p : Pager) (bytes : Bytes) : Pager :=
  { p with bytes, held := fun osPage => bytes :: p.held osPage }

-- `mut_bytes(start, len)?.copy_from_slice(data)`
def writeAt (start : Nat) (data : List UInt8) : Gems.Prog Pager Unit := do
  let p ← view
  if start + data.length > p.mappedLen then raise (.corruptPage "write beyond end of file")
  else write fun p => p.store (patch p.bytes start data)

-- Flushing changes nothing that a read of the file returns.
def syncRange (os : PageSize) (offset len : Nat) : Gems.Prog Pager Unit :=
  request fun p =>
    let alignedStart := offset - (offset &&& (os.size - 1))
    let alignedEnd := roundUpToOsPage os (offset + len)
    let alignedLen := min (alignedEnd - alignedStart) (p.mappedLen - alignedStart)
    { p with
      held := fun osPage =>
        if alignedStart ≤ osPage * os.size ∧ osPage * os.size < alignedStart + alignedLen then
          [p.bytes]
        else p.held osPage }

def writeHeader (os : PageSize) : Gems.Prog Pager Unit := do
  let p ← view
  let base := p.fileOffset headerPageId
  writeAt base p.header.encode
  syncRange os base headerEncodedLen

def create (os : PageSize) (pageSize keyLen valueLen : Nat) : Except Fault Pager :=
  if pageSize < headerEncodedLen then .error .panicked
  else
    let header : Header :=
      { magic := Index.magic
        formatVersion := 1
        pageSize
        keyLen
        valueLen
        rootPage := 0
        freeListHead := 0
        pageCount := 1
        commitSeq := 0 }
    match (writeHeader os).run
      { bytes := fun _ => 0
        fileLen := pageSize
        mappedLen := roundUpToOsPage os pageSize
        header
        held := fun _ => [fun _ => 0] } with
    | (.ok (), p) => .ok p
    | (.error e, _) => .error e

def openFile (os : PageSize) (disk : DiskFile) : Except Fault Pager := do
  if disk.len = 0 then throw (.raised .io)
  let header ← Header.decode (slice disk.bytes 0 headerEncodedLen)
  pure
    { bytes := disk.bytes
      fileLen := disk.len
      mappedLen := roundUpToOsPage os disk.len
      header
      held := fun _ => [disk.bytes] }

def onDisk (p : Pager) : DiskFile := { bytes := truncate p.bytes p.fileLen, len := p.fileLen }

-- One 4-byte write makes the new root visible; the header write after it only adds commit_seq.
def publishRoot (os : PageSize) (newRoot : Nat) : Gems.Prog Pager Unit := do
  let p ← view
  if p.header.commitSeq + 1 = 2 ^ 64 then fail .panicked
  else do
    update fun p =>
      { p with header := { p.header with rootPage := newRoot, commitSeq := p.header.commitSeq + 1 } }
    let base := p.fileOffset headerPageId + rootPageOffset
    writeAt base (littleEndian 4 newRoot)
    syncRange os base 4
    writeHeader os

def page (p : Pager) (pageId : Nat) : Except Fault (List UInt8) :=
  if p.fileOffset pageId + p.header.pageSize > p.mappedLen then
    .error (corrupt "page id beyond end of file")
  else .ok (slice p.bytes (p.fileOffset pageId) p.header.pageSize)

-- Overwrite a page through `page_mut`.
def fillPage (pageId : Nat) (content : Except Fault (List UInt8)) : Gems.Prog Pager Unit := do
  let p ← view
  if p.fileOffset pageId + p.header.pageSize > p.mappedLen then
    raise (.corruptPage "write beyond end of file")
  else do
    let data ← ofResult content
    write fun p => p.store (patch p.bytes (p.fileOffset pageId) data)

def allocatePage (os : PageSize) : Gems.Prog Pager Nat := do
  let p ← view
  if p.header.freeListHead ≠ 0 then do
    let pageId := p.header.freeListHead
    let buf ← ofResult (p.page pageId)
    let next := ofLittleEndian (buf.take 4)
    update fun p => { p with header := { p.header with freeListHead := next } }
    writeHeader os
    fillPage pageId (.ok (List.replicate p.header.pageSize 0))
    pure pageId
  else do
    let pageId := p.header.pageCount
    let newLen := p.fileOffset pageId + p.header.pageSize
    request fun p => { p.store (truncate (truncate p.bytes p.fileLen) newLen) with fileLen := newLen }
    update fun p => { p with mappedLen := roundUpToOsPage os newLen }
    if p.header.pageCount + 1 = 2 ^ 32 then fail .panicked
    else do
      update fun p => { p with header := { p.header with pageCount := p.header.pageCount + 1 } }
      writeHeader os
      pure pageId

def freePage (os : PageSize) (pageId : Nat) : Gems.Prog Pager Unit := do
  let p ← view
  let next := p.header.freeListHead
  if p.fileOffset pageId + p.header.pageSize > p.mappedLen then
    raise (.corruptPage "write beyond end of file")
  else do
    write fun p => p.store (patch p.bytes (p.fileOffset pageId) (littleEndian 4 next))
    update fun p => { p with header := { p.header with freeListHead := pageId } }
    writeHeader os

end Pager

section HeaderBytes

variable {h : Header} {bytes : Bytes}

structure Header.Fits (h : Header) : Prop where
  magic : h.magic = Index.magic
  formatVersion : h.formatVersion < 2 ^ 16
  pageSize : h.pageSize < 2 ^ 32
  keyLen : h.keyLen < 2 ^ 16
  valueLen : h.valueLen < 2 ^ 16
  rootPage : h.rootPage < 2 ^ 32
  freeListHead : h.freeListHead < 2 ^ 32
  pageCount : h.pageCount < 2 ^ 32
  commitSeq : h.commitSeq < 2 ^ 64

theorem Header.length_encode (h : Header) : h.encode.length = headerEncodedLen := by
  simp [Header.encode, headerEncodedLen]

theorem Header.field (before : List UInt8) {after : List UInt8} {offset width n : Nat}
    (whole : h.encode = before ++ (littleEndian width n ++ after)) (place : before.length = offset)
    (small : n < 256 ^ width) : ofLittleEndian ((h.encode.drop offset).take width) = n := by
  rw [whole, List.drop_left' place, List.take_left' (length_littleEndian width n),
    ofLittleEndian_littleEndian small]

-- The header up to the root page, and after it.
def Header.front (h : Header) : List UInt8 :=
  littleEndian 4 h.magic ++ (littleEndian 2 h.formatVersion ++ (littleEndian 4 h.pageSize ++
    (littleEndian 2 h.keyLen ++ littleEndian 2 h.valueLen)))

def Header.back (h : Header) : List UInt8 :=
  littleEndian 4 h.freeListHead ++ (littleEndian 4 h.pageCount ++ littleEndian 8 h.commitSeq)

theorem Header.length_front (h : Header) : h.front.length = rootPageOffset := by
  simp [Header.front, rootPageOffset]

theorem Header.encode_eq (h : Header) :
    h.encode = h.front ++ (littleEndian 4 h.rootPage ++ h.back) := by
  simp only [Header.encode, Header.front, Header.back, List.append_assoc]

theorem Header.commitSeq_encode (small : h.commitSeq < 2 ^ 64) :
    ofLittleEndian ((h.encode.drop 26).take 8) = h.commitSeq := by
  have last : h.encode = (h.front ++ (littleEndian 4 h.rootPage ++ (littleEndian 4 h.freeListHead ++
      littleEndian 4 h.pageCount))) ++ (littleEndian 8 h.commitSeq ++ []) := by
    simp only [h.encode_eq, Header.back, List.append_assoc, List.append_nil]
  exact Header.field _ last (by simp [h.length_front, rootPageOffset]) small

theorem Header.decode_encode (fits : h.Fits) : Header.decode h.encode = .ok h := by
  have magic : ofLittleEndian ((h.encode.drop 0).take 4) = h.magic :=
    Header.field [] rfl rfl (by rw [fits.magic]; decide)
  have formatVersion : ofLittleEndian ((h.encode.drop 4).take 2) = h.formatVersion :=
    Header.field (littleEndian 4 h.magic) rfl (by simp) fits.formatVersion
  have pageSize : ofLittleEndian ((h.encode.drop 6).take 4) = h.pageSize :=
    Header.field (littleEndian 4 h.magic ++ littleEndian 2 h.formatVersion)
      (by rw [List.append_assoc]; rfl) (by simp) fits.pageSize
  have keyLen : ofLittleEndian ((h.encode.drop 10).take 2) = h.keyLen :=
    Header.field (littleEndian 4 h.magic ++ (littleEndian 2 h.formatVersion ++
      littleEndian 4 h.pageSize)) (by simp only [List.append_assoc]; rfl) (by simp) fits.keyLen
  have valueLen : ofLittleEndian ((h.encode.drop 12).take 2) = h.valueLen :=
    Header.field (littleEndian 4 h.magic ++ (littleEndian 2 h.formatVersion ++
      (littleEndian 4 h.pageSize ++ littleEndian 2 h.keyLen)))
      (by simp only [List.append_assoc]; rfl) (by simp) fits.valueLen
  have rootPage : ofLittleEndian ((h.encode.drop 14).take 4) = h.rootPage :=
    Header.field h.front h.encode_eq h.length_front fits.rootPage
  have freeListHead : ofLittleEndian ((h.encode.drop 18).take 4) = h.freeListHead :=
    Header.field (h.front ++ littleEndian 4 h.rootPage)
      (by rw [h.encode_eq, List.append_assoc]; rfl) (by simp [h.length_front, rootPageOffset])
      fits.freeListHead
  have pageCount : ofLittleEndian ((h.encode.drop 22).take 4) = h.pageCount :=
    Header.field (h.front ++ (littleEndian 4 h.rootPage ++ littleEndian 4 h.freeListHead))
      (by simp only [h.encode_eq, List.append_assoc]; rfl)
      (by simp [h.length_front, rootPageOffset]) fits.pageCount
  have commitSeq := h.commitSeq_encode fits.commitSeq
  rw [Header.decode, if_neg (by rw [h.length_encode]; exact lt_irrefl _)]
  simp only [magic, formatVersion, pageSize, keyLen, valueLen, rootPage, freeListHead, pageCount,
    commitSeq, fits.magic, ne_eq, not_true_eq_false, if_false]
  rw [← fits.magic]

theorem Header.patch_root {newRoot : Nat}
    (here : slice bytes 0 headerEncodedLen = h.encode) :
    slice (patch bytes rootPageOffset (littleEndian 4 newRoot)) 0 headerEncodedLen =
      Header.encode { h with rootPage := newRoot } := by
  have parts (bytes : Bytes) : slice bytes 0 headerEncodedLen = slice bytes 0 rootPageOffset ++
      (slice bytes rootPageOffset 4 ++ slice bytes (rootPageOffset + 4) 16) := by
    rw [show headerEncodedLen = rootPageOffset + (4 + 16) from rfl, slice_add, slice_add, Nat.zero_add]
  have whole := (parts bytes).symm.trans (here.trans h.encode_eq)
  obtain ⟨front, rest⟩ := List.append_inj whole (by rw [length_slice, h.length_front])
  obtain ⟨-, back⟩ := List.append_inj rest (by rw [length_slice, length_littleEndian])
  have root : slice (patch bytes rootPageOffset (littleEndian 4 newRoot)) rootPageOffset
      (littleEndian 4 newRoot).length = littleEndian 4 newRoot := slice_patch_same
  rw [length_littleEndian] at root
  rw [parts, Header.encode_eq, slice_patch_apart (by simp), front, root,
    slice_patch_apart (by simp), back]
  rfl

end HeaderBytes

end Gems.Index
