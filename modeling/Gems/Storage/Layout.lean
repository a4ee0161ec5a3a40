import Gems.Storage.Manager
import Mathlib.Data.Set.Basic
import Mathlib.Data.Set.Insert

set_option autoImplicit false

namespace Gems.Storage

open Lib

theorem extentSize_eq : extentSize = 16781328 := by
  unfold extentSize
  rfl

theorem extentSize_pos : 0 < extentSize := by
  rw [extentSize_eq]
  decide

theorem dataOffset_eq : dataOffset = 4112 := rfl

theorem extentHeaderLen_eq : extentHeaderLen = 16 := rfl

theorem bitmapBytes_eq : bitmapBytes = 4096 := rfl

theorem dataRegionSize_eq : dataRegionSize = 16777216 := rfl

-- How far the mapping moves with every extent.
def stride (page : PageSize) : Nat := roundUpToOsPage page extentSize

theorem extentSize_le_stride (page : PageSize) : extentSize ≤ stride page :=
  le_roundUpToOsPage page extentSize

-- EXTENT_SIZE is 16 bytes past a 4096 boundary, so each extent drifts by at least 4080 bytes.
theorem stride_drift (page : PageSize) : extentSize + 4080 ≤ stride page := by
  obtain ⟨k, eq⟩ := Nat.dvd_trans page.dvd_4096 (dvd_roundUpToOsPage page extentSize)
  have le := extentSize_le_stride page
  rw [stride, eq, extentSize_eq] at *
  omega

theorem roundUpToOsPage_stride (page : PageSize) (n : Nat) :
    roundUpToOsPage page (n * stride page + extentSize) = (n + 1) * stride page := by
  have dvd : page.size ∣ n * stride page :=
    Nat.dvd_trans (dvd_roundUpToOsPage page extentSize) (Nat.dvd_mul_left _ _)
  rw [roundUpToOsPage_add page dvd, Nat.add_mul, Nat.one_mul]
  rfl

-- As long as the drift is below one extent there are few extents.
theorem few_extents {page : PageSize} {n : Nat} (level : n * stride page / extentSize = n) :
    n < 4114 := by
  have drift := stride_drift page
  have below : n * stride page < n * extentSize + extentSize := by
    have := Nat.lt_mul_div_succ (n * stride page) extentSize_pos
    rw [level, Nat.mul_add, Nat.mul_one, Nat.mul_comm extentSize] at this
    exact this
  have : n * (extentSize + 4080) ≤ n * stride page := Nat.mul_le_mul_left n drift
  rw [extentSize_eq] at *
  omega

def slotBase (p : SlotPointer) (c : BlockClass) : Nat :=
  p.extentIndex.toNat * extentSize + dataOffset + p.slotIndex.toNat * c.blockSize

/-- A pointer into one of the first `n` extents whose slot is marked and whose class is the recorded one. -/
structure Lives (fileId : UInt32) (bytes : Bytes) (n : Nat) (p : SlotPointer) (c : BlockClass) :
    Prop where
  file : p.fileId = fileId
  inside : p.extentIndex.toNat < n
  kind : p.blockClass.toNat = c.index
  recorded : (bytes (p.extentIndex.toNat * extentSize + 6)).toNat = c.index
  slot : p.slotIndex.toNat < c.slotsPerExtent
  marked : Bitmap.get bytes (p.extentIndex.toNat * extentSize + extentHeaderLen)
    p.slotIndex.toNat = true

/-- The file, on disk or mapped: `n` extents, nothing but zeros behind them, and the live slots. -/
structure Laid (page : PageSize) (fileId : UInt32) (bytes : Bytes) (len n : Nat)
    (live : Set SlotPointer) : Prop where
  len : len = if n = 0 then 0 else (n - 1) * stride page + extentSize
  blank : ∀ i, n * extentSize ≤ i → bytes i = 0
  classes : ∀ i < n, (bytes (i * extentSize + 6)).toNat < 16
  live : ∀ p ∈ live, ∃ c, Lives fileId bytes n p c

structure Held (page : PageSize) (s : ExtentManager) (live : Set SlotPointer) : Prop where
  laid : Laid page s.fileId s.file.bytes s.file.fileLen s.extents.length live
  extents : ∀ i c, s.extents[i]? = some c → (s.file.bytes (i * extentSize + 6)).toNat = c.index
  mapped : s.file.mappedLen = s.extents.length * stride page
  writable : s.file.writable = true

variable {page : PageSize} {fileId : UInt32} {bytes bytes' : Bytes} {len n n' : Nat}
  {live live' : Set SlotPointer} {p q : SlotPointer} {c d : BlockClass}

theorem slot_byte (h : p.slotIndex.toNat < c.slotsPerExtent) : p.slotIndex.toNat / 8 < bitmapBytes := by
  have := c.slotsPerExtent_le
  omega

theorem Lives.frame (h : Lives fileId bytes n p c) (le : n ≤ n')
    (same : ∀ i, p.extentIndex.toNat * extentSize ≤ i →
      i < p.extentIndex.toNat * extentSize + dataOffset → bytes' i = bytes i) :
    Lives fileId bytes' n' p c where
  file := h.file
  inside := h.inside.trans_le le
  kind := h.kind
  recorded := by
    rw [same _ (by omega) (by rw [dataOffset_eq]; omega), h.recorded]
  slot := h.slot
  marked := by
    have byte := slot_byte h.slot
    rw [Bitmap.get, same _ (by omega) (by rw [dataOffset_eq, extentHeaderLen_eq, bitmapBytes_eq] at *; omega)]
    exact h.marked

theorem Lives.range (h : Lives fileId bytes n p c) :
    p.extentIndex.toNat * extentSize + dataOffset ≤ slotBase p c ∧
      slotBase p c + c.blockSize ≤ (p.extentIndex.toNat + 1) * extentSize := by
  have slots : (p.slotIndex.toNat + 1) * c.blockSize ≤ c.slotsPerExtent * c.blockSize :=
    Nat.mul_le_mul_right _ h.slot
  rw [c.slotsPerExtent_mul, Nat.add_mul, Nat.one_mul] at slots
  refine ⟨Nat.le_add_right _ _, ?_⟩
  simp only [slotBase, extentSize_eq, dataOffset_eq, dataRegionSize_eq] at *
  omega

theorem BlockClass.ext_index {c d : BlockClass} (h : c.index = d.index) : c = d := by
  cases c
  cases d
  simpa using h

theorem Lives.class_unique (h : Lives fileId bytes n p c) (h' : Lives fileId bytes n q d)
    (same : p.extentIndex = q.extentIndex) : c = d := by
  apply BlockClass.ext_index
  rw [← h.recorded, ← h'.recorded, same]

theorem Lives.eq_of_slot (h : Lives fileId bytes n p c) (h' : Lives fileId bytes n q d)
    (extent : p.extentIndex = q.extentIndex) (slot : p.slotIndex = q.slotIndex) : p = q := by
  have class_ : p.blockClass = q.blockClass := by
    apply UInt8.toNat_inj.mp
    rw [h.kind, h'.kind, h.class_unique h' extent]
  have file := h.file.trans h'.file.symm
  cases p
  cases q
  simp_all

theorem Lives.apart (h : Lives fileId bytes n p c) (h' : Lives fileId bytes n q d) (other : p ≠ q) :
    slotBase p c + c.blockSize ≤ slotBase q d ∨ slotBase q d + d.blockSize ≤ slotBase p c := by
  have range := h.range
  have range' := h'.range
  rcases Nat.lt_trichotomy p.extentIndex.toNat q.extentIndex.toNat with before | same | after
  · left
    have : (p.extentIndex.toNat + 1) * extentSize ≤ q.extentIndex.toNat * extentSize :=
      Nat.mul_le_mul_right _ before
    omega
  · have extent : p.extentIndex = q.extentIndex := UInt32.toNat_inj.mp same
    obtain rfl := h.class_unique h' extent
    have slots : p.slotIndex.toNat ≠ q.slotIndex.toNat := fun slot =>
      other (h.eq_of_slot h' extent (UInt32.toNat_inj.mp slot))
    rcases Nat.lt_or_gt_of_ne slots with less | more
    · left
      have : (p.slotIndex.toNat + 1) * c.blockSize ≤ q.slotIndex.toNat * c.blockSize :=
        Nat.mul_le_mul_right _ less
      rw [Nat.add_mul, Nat.one_mul] at this
      simp only [slotBase, same]
      omega
    · right
      have : (q.slotIndex.toNat + 1) * c.blockSize ≤ p.slotIndex.toNat * c.blockSize :=
        Nat.mul_le_mul_right _ more
      rw [Nat.add_mul, Nat.one_mul] at this
      simp only [slotBase, same]
      omega
  · right
    have : (q.extentIndex.toNat + 1) * extentSize ≤ p.extentIndex.toNat * extentSize :=
      Nat.mul_le_mul_right _ after
    omega

theorem Lives.off_headers (h : Lives fileId bytes n p c) (i : Nat) :
    slotBase p c + c.blockSize ≤ i * extentSize ∨ i * extentSize + dataOffset ≤ slotBase p c := by
  have range := h.range
  rcases Nat.lt_or_ge p.extentIndex.toNat i with before | after
  · left
    have : (p.extentIndex.toNat + 1) * extentSize ≤ i * extentSize := Nat.mul_le_mul_right _ before
    omega
  · right
    have : i * extentSize ≤ p.extentIndex.toNat * extentSize := Nat.mul_le_mul_right _ after
    omega

def Payload (n i : Nat) : Prop :=
  i < n * extentSize ∧ ∀ j, i < j * extentSize ∨ j * extentSize + dataOffset ≤ i

theorem Lives.payload (h : Lives fileId bytes n p c) {i : Nat} (lo : slotBase p c ≤ i)
    (hi : i < slotBase p c + c.blockSize) : Payload n i := by
  have range := h.range
  have whole : (p.extentIndex.toNat + 1) * extentSize ≤ n * extentSize :=
    Nat.mul_le_mul_right _ h.inside
  refine ⟨by omega, fun j => ?_⟩
  have off := h.off_headers j
  omega

theorem Laid.extents_le (h : Laid page fileId bytes len n live) : n * extentSize ≤ len := by
  rw [h.len]
  split
  next none => simp [none]
  next some =>
    have : (n - 1) * extentSize ≤ (n - 1) * stride page :=
      Nat.mul_le_mul_left _ (extentSize_le_stride page)
    have split : n * extentSize = (n - 1) * extentSize + extentSize := by
      rw [← Nat.succ_mul, show (n - 1).succ = n by omega]
    omega

theorem Laid.truncate_eq (h : Laid page fileId bytes len n live) : truncate bytes len = bytes := by
  funext i
  by_cases inside : i < len
  · exact truncate_inside inside
  · rw [truncate_outside (by omega), h.blank i (h.extents_le.trans (by omega))]

theorem Laid.subset (h : Laid page fileId bytes len n live) (sub : live' ⊆ live) :
    Laid page fileId bytes len n live' :=
  { h with live := fun p mem => h.live p (sub mem) }

theorem Laid.roundUp (h : Laid page fileId bytes len n live) :
    (if len = 0 then 0 else roundUpToOsPage page len) = n * stride page := by
  have extents := h.extents_le
  rw [h.len]
  by_cases none : n = 0
  · simp [none]
  · rw [if_neg none, if_neg (by rw [extentSize_eq]; omega), roundUpToOsPage_stride,
      show n - 1 + 1 = n by omega]

theorem bitmap_frame {base slot : Nat} {value : Bool} {i : Nat} (byte : slot / 8 < bitmapBytes)
    (outside : i < base ∨ base + bitmapBytes ≤ i) :
    Bitmap.set bytes base slot value i = bytes i :=
  Bitmap.set_outside (by omega)

theorem class_apart (i j : Nat) : i * extentSize + 6 < j * extentSize + extentHeaderLen ∨
    j * extentSize + extentHeaderLen + bitmapBytes ≤ i * extentSize + 6 := by
  rw [extentSize_eq, extentHeaderLen_eq, bitmapBytes_eq]
  omega

theorem Laid.mark (h : Laid page fileId bytes len n live) {extent slot : Nat} {value : Bool}
    (inside : extent < n) (byte : slot / 8 < bitmapBytes)
    (safe : value = false → ∀ p ∈ live, p.extentIndex.toNat = extent → p.slotIndex.toNat ≠ slot) :
    Laid page fileId (Bitmap.set bytes (extent * extentSize + extentHeaderLen) slot value) len n
      live where
  len := h.len
  blank := by
    intro i le
    have : (extent + 1) * extentSize ≤ n * extentSize := Nat.mul_le_mul_right _ inside
    rw [bitmap_frame byte (by rw [extentSize_eq, extentHeaderLen_eq, bitmapBytes_eq] at *; omega)]
    exact h.blank i le
  classes := by
    intro i below
    rw [bitmap_frame byte (class_apart i extent)]
    exact h.classes i below
  live := by
    intro p mem
    obtain ⟨c, lives⟩ := h.live p mem
    refine ⟨c, { lives with recorded := ?_, marked := ?_ }⟩
    · rw [bitmap_frame byte (class_apart _ extent)]
      exact lives.recorded
    · by_cases same : p.extentIndex.toNat = extent
      · rw [same, Bitmap.get_set]
        split
        next eq =>
          cases value with
          | true => rfl
          | false => exact absurd eq.symm (safe rfl p mem same)
        next =>
          rw [← same]
          exact lives.marked
      · have slotByte := slot_byte lives.slot
        rw [Bitmap.get, bitmap_frame byte (by
          rw [extentSize_eq, extentHeaderLen_eq, bitmapBytes_eq] at *
          omega)]
        exact lives.marked

end Gems.Storage
