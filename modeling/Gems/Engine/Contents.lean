import Gems.Engine.Store
import Gems.Storage.Slots

set_option autoImplicit false

namespace Gems.Engine

open Lib Prog Catalog Storage

-- What get returns for what was inserted.
def stored (header : EntityHeader) (body : List UInt8) : Entity :=
  ((Store.placed header body).truncated, body)

structure Holds (bytes : Bytes) (p : SlotPointer) (c : BlockClass) (e : Entity) : Prop where
  kind : p.blockClass.toNat = c.index
  fits : (e.1.encode ++ e.2).length ≤ c.blockSize
  content : slice bytes (slotBase p c) (e.1.encode ++ e.2).length = e.1.encode ++ e.2
  header : e.1.truncated = e.1
  offset : e.1.bodyOffset.toNat = encodedLen
  len : e.1.bodyLen.toNat = e.2.length

variable {page : PageSize} {bytes bytes' : Bytes} {p : SlotPointer} {c : BlockClass} {e : Entity} {n : Nat}
  {fileId : UInt32} {live : Set SlotPointer}

theorem Holds.congr (holds : Holds bytes p c e)
    (same : ∀ i, slotBase p c ≤ i → i < slotBase p c + c.blockSize → bytes' i = bytes i) :
    Holds bytes' p c e where
  kind := holds.kind
  fits := holds.fits
  content := by
    have fits := holds.fits
    exact (slice_congr fun i after before => same i after (by omega)).trans holds.content
  header := holds.header
  offset := holds.offset
  len := holds.len

section Encoding

theorem truncateUtf8_cut (s : String) (max : Nat) : truncateUtf8 (cut max s) max = truncateUtf8 s max := by
  rw [truncateUtf8_eq, truncateUtf8_eq, cut_of_fits (length_utf8_cut max s)]

theorem encode_truncated (h : EntityHeader) : h.truncated.encode = h.encode := by
  have fields : h.truncated.encodeFields = h.encodeFields := by
    simp only [EntityHeader.encodeFields, EntityHeader.truncated, truncateUtf8_cut]
  rw [EntityHeader.encode, EntityHeader.encode, fields]

variable {header : EntityHeader} {body : List UInt8}

theorem stored_id : (stored header body).1.id = header.id := rfl

theorem stored_blob : (stored header body).1.encode ++ (stored header body).2 =
    (Store.placed header body).encode ++ body := by
  rw [stored, encode_truncated]

theorem length_blob : ((Store.placed header body).encode ++ body).length = encodedLen + body.length := by
  rw [List.length_append, EntityHeader.length_encode]

theorem holds_stored (kind : p.blockClass.toNat = c.index) (small : encodedLen + body.length ≤ c.blockSize)
    (content : slice bytes (slotBase p c) ((Store.placed header body).encode ++ body).length =
      (Store.placed header body).encode ++ body) : Holds bytes p c (stored header body) where
  kind := kind
  fits := by rwa [stored_blob, length_blob]
  content := by rwa [stored_blob]
  header := EntityHeader.truncated_truncated _
  offset := by
    change (UInt32.ofNat encodedLen).toNat = encodedLen
    decide
  len := by
    have block : c.blockSize ≤ 2 ^ 24 := by
      rw [c.blockSize_eq]
      exact Nat.pow_le_pow_right (by decide) (by have := c.small; omega)
    change (UInt32.ofNat body.length).toNat = body.length
    rw [UInt32.toNat_ofNat', Nat.mod_eq_of_lt (by omega)]

end Encoding

theorem readAt_spec {s : Store} (held : Held page s.data live)
    (lives : Lives s.data.fileId s.data.file.bytes s.data.extents.length p c)
    (holds : Holds s.data.file.bytes p c e) : s.readAt p = .ok e := by
  obtain ⟨header, body⟩ := e
  have fits := holds.fits
  have known : BlockClass.fromIndex p.blockClass.toNat = .ok c := by
    rw [holds.kind, BlockClass.fromIndex_index]
  have length : (header.encode ++ body).length = encodedLen + body.length := by
    rw [List.length_append, EntityHeader.length_encode]
  have blob : slice s.data.file.bytes (slotBase p c) c.blockSize =
      (header.encode ++ body) ++ slice s.data.file.bytes
        (slotBase p c + (header.encode ++ body).length) (c.blockSize - (header.encode ++ body).length) := by
    rw [← holds.content, length_slice, ← slice_add, Nat.add_sub_cancel' fits]
  have decoded : EntityHeader.decode ((header.encode ++ body) ++ slice s.data.file.bytes
      (slotBase p c + (header.encode ++ body).length) (c.blockSize - (header.encode ++ body).length)) =
      .ok header := by
    rw [List.append_assoc, EntityHeader.decode_encode]
    exact congrArg Except.ok holds.header
  have offset : header.bodyOffset.toNat = encodedLen := holds.offset
  have len : header.bodyLen.toNat = body.length := holds.len
  simp only [Store.readAt, known, Except.mapError, bind, Except.bind, held.read lives le_rfl, blob, decoded,
    offset, len]
  rw [if_neg (by rw [List.length_append, length]; omega), ← length, List.take_left' rfl,
    List.drop_left' (EntityHeader.length_encode header)]
  rfl

end Gems.Engine
