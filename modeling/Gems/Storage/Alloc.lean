import Gems.Storage.Layout

set_option autoImplicit false

namespace Gems.Storage

open Lib Prog

variable {page : PageSize} {s s' : ExtentManager} {k n : Nat} {c : BlockClass}

theorem toNat_ofNat32 (small : k < 2 ^ 32) : (UInt32.ofNat k).toNat = k := by
  rw [UInt32.toNat_ofNat', Nat.mod_eq_of_lt small]

theorem put_spec {offset : Nat} {data : List UInt8} {ok : Unit → ExtentManager → Prop}
    {err : Fault → ExtentManager → Prop} (writable : s.file.writable = true)
    (inside : offset + data.length ≤ s.file.mappedLen)
    (h : ok () { s with file.bytes := patch s.file.bytes offset data }) (stop : err .stopped s) :
    Spec (ExtentManager.onFile (ExtentFile.put offset data)) s ok err := by
  refine spec_focus (spec_view_bind ?_)
  simp only [writable, Bool.not_true, Bool.false_eq_true, if_false, inside, if_true]
  exact spec_write h stop

theorem sync_bind {B : Type} {rest : Unit → Gems.Prog ExtentManager B} {ok : B → ExtentManager → Prop}
    {err : Fault → ExtentManager → Prop} (h : Spec (rest ()) s ok err) (refuse : err .refused s) :
    Spec (ExtentManager.onFile ExtentFile.syncRange >>= rest) s ok err := by
  have flushed : Spec (ExtentManager.onFile ExtentFile.syncRange) s (fun _ s' => s' = s) err :=
    spec_focus (spec_flush rfl refuse)
  exact spec_bind flushed fun _ _ here => here ▸ h

theorem sync_spec {ok : Unit → ExtentManager → Prop} {err : Fault → ExtentManager → Prop} (h : ok () s)
    (refuse : err .refused s) : Spec (ExtentManager.onFile ExtentFile.syncRange) s ok err :=
  spec_focus (spec_flush h refuse)

section Growing

-- `s'` is `s` with extent `k` added behind everything else, as far as it got.
structure Grown (s : ExtentManager) (k : Nat) (s' : ExtentManager) : Prop where
  fileId : s'.fileId = s.fileId
  writable : s'.file.writable = true
  len : s'.file.fileLen = s.file.mappedLen + extentSize
  same : ∀ i, i < k * extentSize ∨ k * extentSize + extentHeaderLen < i →
    s'.file.bytes i = s.file.bytes i
  class_ : (s'.file.bytes (k * extentSize + 6)).toNat < 16

structure Making (page : PageSize) (s : ExtentManager) (k : Nat) (known : Option BlockClass)
    (s' : ExtentManager) : Prop extends Grown s k s' where
  extents : s'.extents = s.extents
  mapped : s'.file.mappedLen = roundUpToOsPage page (s.file.mappedLen + extentSize)
  unmarked : s'.file.bytes (k * extentSize + extentHeaderLen) = 0
  recorded : ∀ c, known = some c → (s'.file.bytes (k * extentSize + 6)).toNat = c.index

-- `k` is where allocate puts the next extent: everything from there on is blank.
structure Room (s : ExtentManager) (k : Nat) : Prop where
  index : s.file.mappedLen / extentSize = k
  small : k < 2 ^ 32
  blank : ∀ i, k * extentSize ≤ i → s.file.bytes i = 0
  tail : ∀ i, s.file.fileLen ≤ i → s.file.bytes i = 0
  writable : s.file.writable = true

theorem Room.fits (room : Room s k) :
    (k + 1) * extentSize ≤ roundUpToOsPage page (s.file.mappedLen + extentSize) := by
  have whole := Nat.div_mul_le_self s.file.mappedLen extentSize
  have up := le_roundUpToOsPage page (s.file.mappedLen + extentSize)
  rw [room.index] at whole
  rw [Nat.add_mul, Nat.one_mul]
  omega

theorem grow_spec (room : Room s k) :
    Spec (ExtentManager.onFile (ExtentFile.growByOneExtent page)) s
      (fun offset s' => offset / extentSize = k ∧ Making page s k none s')
      (fun e s' => e.Outside ∧ s' = s) := by
  refine spec_focus (spec_view_bind ?_)
  simp only [room.writable, Bool.not_true, Bool.false_eq_true, if_false]
  refine spec_request_bind (spec_update_bind ?_) ⟨.inl rfl, rfl⟩ ⟨.inr rfl, rfl⟩
  have bytes (i : Nat) : truncate s.file.bytes s.file.fileLen i = s.file.bytes i := by
    by_cases inside : i < s.file.fileLen
    · exact truncate_inside inside
    · rw [truncate_outside (by omega), room.tail i (by omega)]
  refine spec_pure ⟨room.index, ?_⟩
  exact
    { fileId := rfl
      writable := room.writable
      len := rfl
      same := fun i _ => bytes i
      class_ := by
        change (truncate s.file.bytes s.file.fileLen _).toNat < 16
        rw [bytes, room.blank _ (by omega)]
        decide
      extents := rfl
      mapped := rfl
      unmarked := by
        change truncate s.file.bytes s.file.fileLen _ = 0
        rw [bytes, room.blank _ (by omega)]
      recorded := by simp }

theorem Making.put {known known' : Option BlockClass} (room : Room s k)
    (making : Making page s k known s') {offset : Nat} {data : List UInt8}
    (lo : k * extentSize ≤ offset)
    (hi : offset + data.length ≤ k * extentSize + extentHeaderLen)
    (class_ : (offset + data.length ≤ k * extentSize + 6 ∨ k * extentSize + 7 ≤ offset) ∧
        known' = known ∨
      ∃ c : BlockClass, offset = k * extentSize + 6 ∧ data = [UInt8.ofNat c.index] ∧
        known' = some c) :
    Spec (ExtentManager.onFile (ExtentFile.put offset data)) s'
      (fun _ => Making page s k known') (fun e s' => e.Outside ∧ Grown s k s') := by
  have byte : (patch s'.file.bytes offset data (k * extentSize + 6)).toNat < 16 ∧
      ∀ c, known' = some c →
        (patch s'.file.bytes offset data (k * extentSize + 6)).toNat = c.index := by
    rcases class_ with ⟨apart, rfl⟩ | ⟨c, rfl, rfl, rfl⟩
    · rw [patch_outside (by omega)]
      exact ⟨making.class_, making.recorded⟩
    · have small := c.small
      rw [patch_singleton, UInt8.toNat_ofNat', Nat.mod_eq_of_lt (by omega)]
      exact ⟨small, fun d same => by rw [Option.some.inj same]⟩
  refine put_spec making.writable ?_ ?_ ⟨.inl rfl, making.toGrown⟩
  · have fits := (room.fits : (k + 1) * extentSize ≤
      roundUpToOsPage page (s.file.mappedLen + extentSize))
    have header : extentHeaderLen ≤ extentSize := by
      rw [extentSize_eq]
      decide
    rw [Nat.add_mul, Nat.one_mul] at fits
    rw [making.mapped]
    omega
  exact
    { fileId := making.fileId
      writable := making.writable
      len := making.len
      same := by
        intro i outside
        rw [← making.same i outside]
        exact patch_outside (by omega)
      class_ := byte.1
      extents := making.extents
      mapped := making.mapped
      unmarked := by
        rw [← making.unmarked]
        exact patch_outside (.inr hi)
      recorded := byte.2 }

theorem initExtentHeader_spec (room : Room s k) (making : Making page s k none s') :
    Spec (ExtentManager.initExtentHeader (UInt32.ofNat k) c) s'
      (fun _ => Making page s k (some c)) (fun e s' => e.Outside ∧ Grown s k s') := by
  unfold ExtentManager.initExtentHeader
  simp only [ExtentManager.extentOffset, toNat_ofNat32 room.small]
  have header := extentHeaderLen_eq
  refine spec_bind (Making.put room making le_rfl ?_ (.inl ⟨?_, rfl⟩)) ?_
  · simp only [length_littleEndian]
    omega
  · simp only [length_littleEndian]
    omega
  intro _ s₁ making
  refine spec_bind (Making.put room making (by omega) ?_ (.inl ⟨?_, rfl⟩)) ?_
  · simp only [length_littleEndian]
    omega
  · simp only [length_littleEndian]
    omega
  intro _ s₂ making
  refine spec_bind (Making.put room making (by omega) ?_ (.inr ⟨c, rfl, rfl, rfl⟩)) ?_
  · simp only [List.length_singleton]
    omega
  intro _ s₃ making
  refine spec_bind (Making.put room making (by omega) ?_ (.inl ⟨.inr (by omega), rfl⟩)) ?_
  · simp only [List.length_singleton]
    omega
  intro _ s₄ making
  refine spec_bind (Making.put room making (by omega) ?_ (.inl ⟨.inr (by omega), rfl⟩)) ?_
  · simp only [length_littleEndian]
    omega
  intro _ s₅ making
  refine spec_bind (Making.put room making (by omega) ?_ (.inl ⟨.inr (by omega), rfl⟩)) ?_
  · simp only [length_littleEndian]
    omega
  intro _ s₆ making
  exact sync_spec making ⟨.inr rfl, making.toGrown⟩

theorem calls_grow : Calls (ExtentManager.onFile (ExtentFile.growByOneExtent page)) 1 := by
  refine calls_focus (calls_view_bind fun f => ?_)
  split
  next => exact calls_fail (by simp [Fault.Outside])
  next =>
    refine @calls_bind _ _ _ _ 1 0 _ _ calls_request fun _ => ?_
    exact calls_update_bind calls_pure

theorem calls_put {offset : Nat} {data : List UInt8} :
    Calls (ExtentManager.onFile (ExtentFile.put offset data)) 0 := by
  refine calls_focus (calls_view_bind fun f => ?_)
  split
  next => exact calls_fail (by simp [Fault.Outside])
  next =>
    split
    next => exact calls_write
    next => exact calls_fail (by simp [Fault.Outside])

theorem calls_initExtentHeader {idx : UInt32} : Calls (ExtentManager.initExtentHeader idx c) 1 :=
  calls_bind calls_put fun _ => calls_bind calls_put fun _ => calls_bind calls_put fun _ =>
    calls_bind calls_put fun _ => calls_bind calls_put fun _ => calls_bind calls_put fun _ =>
      calls_focus calls_flush

def withMark (s : ExtentManager) (base slot : Nat) (value : Bool) : ExtentManager :=
  { s with file.bytes := Bitmap.set s.file.bytes base slot value }

section

variable (s : ExtentManager) (base slot : Nat) (value : Bool)

@[simp] theorem withMark_fileId : (withMark s base slot value).fileId = s.fileId := rfl

@[simp] theorem withMark_extents : (withMark s base slot value).extents = s.extents := rfl

@[simp] theorem withMark_bytes :
    (withMark s base slot value).file.bytes = Bitmap.set s.file.bytes base slot value := rfl

@[simp] theorem withMark_fileLen : (withMark s base slot value).file.fileLen = s.file.fileLen := rfl

@[simp] theorem withMark_mappedLen :
    (withMark s base slot value).file.mappedLen = s.file.mappedLen := rfl

@[simp] theorem withMark_writable :
    (withMark s base slot value).file.writable = s.file.writable := rfl

end

theorem tryAllocate_spec {idx : UInt32} (writable : s.file.writable = true)
    (inside : idx.toNat * extentSize + extentHeaderLen + bitmapBytes ≤ s.file.mappedLen) :
    Spec (ExtentManager.tryAllocateInExtent idx c) s
      (fun found s' => match found with
        | none => s' = s ∧ Bitmap.firstFree s.file.bytes
            (idx.toNat * extentSize + extentHeaderLen) c.slotsPerExtent = none
        | some slot => Bitmap.firstFree s.file.bytes
            (idx.toNat * extentSize + extentHeaderLen) c.slotsPerExtent = some slot.toNat ∧
          s' = withMark s (idx.toNat * extentSize + extentHeaderLen) slot.toNat true)
      (fun e s' => e = .stopped ∧ s' = s ∨ e = .refused ∧ ∃ slot : UInt32, Bitmap.firstFree s.file.bytes
        (idx.toNat * extentSize + extentHeaderLen) c.slotsPerExtent = some slot.toNat ∧
          s' = withMark s (idx.toNat * extentSize + extentHeaderLen) slot.toNat true) := by
  refine spec_view_bind ?_
  simp only [writable, Bool.not_true, Bool.false_eq_true, if_false, ExtentManager.extentOffset,
    inside, if_true]
  split
  next slot found =>
    have small := (Bitmap.firstFree_some found).1
    have few := c.slotsPerExtent_le
    rw [bitmapBytes_eq] at few
    have index := toNat_ofNat32 (k := slot) (by omega)
    refine spec_write_bind (sync_bind (spec_pure ⟨by rw [index, found], by rw [index]; rfl⟩) ?_) (.inl ⟨rfl, rfl⟩)
    exact .inr ⟨rfl, UInt32.ofNat slot, by rw [index, found], by rw [index]; rfl⟩
  next none => exact spec_pure ⟨rfl, none⟩

structure Added (page : PageSize) (s : ExtentManager) (k : Nat) (c : BlockClass)
    (s' : ExtentManager) : Prop extends Grown s k s' where
  extents : s'.extents = s.extents ++ [c]
  mapped : s'.file.mappedLen = roundUpToOsPage page (s.file.mappedLen + extentSize)
  recorded : (s'.file.bytes (k * extentSize + 6)).toNat = c.index
  marked : Bitmap.get s'.file.bytes (k * extentSize + extentHeaderLen) 0 = true

theorem Making.added (making : Making page s k (some c) s') {s'' : ExtentManager} {base : Nat}
    (at_ : base = k * extentSize + extentHeaderLen) (extents : s''.extents = s'.extents ++ [c])
    (rest : s''.fileId = s'.fileId ∧ s''.file = s'.file) :
    Added page s k c (withMark s'' base 0 true) := by
  have other (i : Nat) (out : i ≠ base) :
      (withMark s'' base 0 true).file.bytes i = s'.file.bytes i := by
    rw [withMark_bytes, rest.2]
    exact Bitmap.set_outside (by rwa [Nat.zero_div, Nat.add_zero])
  have classByte : k * extentSize + 6 ≠ base := by
    rw [at_, extentHeaderLen_eq]
    omega
  exact
    { fileId := by rw [withMark_fileId, rest.1, making.fileId]
      writable := by rw [withMark_writable, rest.2, making.writable]
      len := by rw [withMark_fileLen, rest.2, making.len]
      same := by
        intro i outside
        rw [other i (by omega), making.same i outside]
      class_ := by
        rw [other _ classByte]
        exact making.class_
      extents := by rw [withMark_extents, extents, making.extents]
      mapped := by rw [withMark_mappedLen, rest.2, making.mapped]
      recorded := by
        rw [other _ classByte]
        exact making.recorded c rfl
      marked := by
        rw [← at_, withMark_bytes, Bitmap.get_set]
        rfl }

-- The new extent gets into the list, and its first slot is claimed.
def ExtentManager.listExtent (extentIndex : UInt32) (c : BlockClass) : Gems.Prog ExtentManager (UInt32 × UInt32) := do
  update fun s => { s with extents := s.extents ++ [c] }
  match ← tryAllocateInExtent extentIndex c with
  | some slot => pure (extentIndex, slot)
  | none => fail .panicked

theorem allocateInNewExtent_eq (page : PageSize) (c : BlockClass) : ExtentManager.allocateInNewExtent page c =
    ExtentManager.onFile (ExtentFile.growByOneExtent page) >>= fun offset =>
      ExtentManager.initExtentHeader (UInt32.ofNat (offset / extentSize)) c >>= fun _ =>
        ExtentManager.listExtent (UInt32.ofNat (offset / extentSize)) c := rfl

theorem listExtent_spec (room : Room s k) (making : Making page s k (some c) s') :
    Spec (ExtentManager.listExtent (UInt32.ofNat k) c) s'
      (fun found s' => found = (UInt32.ofNat k, 0) ∧ Added page s k c s')
      (fun e s' => e = .stopped ∧ Grown s k s' ∨ e = .refused ∧ Added page s k c s') := by
  refine spec_update_bind ?_
  have index := toNat_ofNat32 room.small
  have fits := (room.fits : (k + 1) * extentSize ≤
    roundUpToOsPage page (s.file.mappedLen + extentSize))
  rw [Nat.add_mul, Nat.one_mul] at fits
  have header : extentHeaderLen + bitmapBytes ≤ extentSize := by
    rw [extentSize_eq]
    decide
  have blank : Bitmap.firstFree s'.file.bytes (k * extentSize + extentHeaderLen)
      c.slotsPerExtent = some 0 := Bitmap.firstFree_blank c.slotsPerExtent_pos making.unmarked
  have zero {slot : UInt32} (first : Bitmap.firstFree s'.file.bytes (k * extentSize + extentHeaderLen)
      c.slotsPerExtent = some slot.toNat) : slot = 0 := by
    have none : slot.toNat = 0 := by simpa [blank] using first.symm
    exact UInt32.toNat_inj.mp none
  refine spec_bind (spec_weaken (tryAllocate_spec making.writable (by
    rw [index, making.mapped]
    omega)) (fun _ _ h => h) ?_) ?_
  · rintro e s' (⟨stopped, rfl⟩ | ⟨refused, slot, first, rfl⟩)
    · exact .inl ⟨stopped, { making.toGrown with }⟩
    · rw [index] at first ⊢
      obtain rfl := zero first
      exact .inr ⟨refused, making.added rfl rfl ⟨rfl, rfl⟩⟩
  intro found s' h
  rw [index] at h
  cases found with
  | none => simp [blank] at h
  | some slot =>
    obtain ⟨first, rfl⟩ := h
    obtain rfl := zero first
    exact spec_pure ⟨rfl, making.added rfl rfl ⟨rfl, rfl⟩⟩

theorem allocateInNewExtent_spec {limit : Limit} (room : Room s k) (listed : limit ≠ .refuse 1) :
    SpecAt limit (ExtentManager.allocateInNewExtent page c) s
      (fun found s' => found = (UInt32.ofNat k, 0) ∧ Added page s k c s')
      (fun e s' => e.Outside ∧ s' = s ∨ e = .stopped ∧ Grown s k s' ∨ e = .refused ∧ Added page s k c s') := by
  rw [allocateInNewExtent_eq]
  refine specAt_bind_calls calls_grow (spec_weaken (grow_spec room) (fun _ _ h => h) fun _ _ h => .inl h) ?_
  rintro offset s₁ limit' ⟨index, making⟩ after
  rw [index]
  have made : SpecAt limit' (ExtentManager.initExtentHeader (UInt32.ofNat k) c) s₁ _ _ :=
    calls_initExtentHeader.passes (after.passes listed) (initExtentHeader_spec room making)
  refine specAt_bind (specAt_weaken made (fun _ _ h => h) ?_) fun _ s₂ making => ?_
  · rintro e s' - ⟨⟨stop | refused, grown⟩, going⟩
    · exact .inr (.inl ⟨stop, grown⟩)
    · exact absurd refused going
  · exact spec_weaken (listExtent_spec room making) (fun _ _ h => h) fun _ _ h => .inr h

end Growing

section Allocating

-- No extent of the class has a free slot left.
def Full (s : ExtentManager) (c : BlockClass) : Prop :=
  ∀ idx ∈ s.candidateIndices c,
    Bitmap.firstFree s.file.bytes (idx.toNat * extentSize + extentHeaderLen) c.slotsPerExtent = none

-- `slot` was free in the extent `idx` and is now marked.
structure Claimed (s : ExtentManager) (idx slot : UInt32) (c : BlockClass) (s' : ExtentManager) :
    Prop where
  candidate : idx ∈ s.candidateIndices c
  below : slot.toNat < c.slotsPerExtent
  free : Bitmap.get s.file.bytes (idx.toNat * extentSize + extentHeaderLen) slot.toNat = false
  state : s' = withMark s (idx.toNat * extentSize + extentHeaderLen) slot.toNat true

theorem tryExtents_spec {candidates : List UInt32} (writable : s.file.writable = true)
    (inside : ∀ idx ∈ candidates,
      idx.toNat * extentSize + extentHeaderLen + bitmapBytes ≤ s.file.mappedLen)
    (known : ∀ idx ∈ candidates, idx ∈ s.candidateIndices c) :
    Spec (ExtentManager.tryExtents c candidates) s
      (fun found s' => match found with
        | none => s' = s ∧ ∀ idx ∈ candidates, Bitmap.firstFree s.file.bytes
            (idx.toNat * extentSize + extentHeaderLen) c.slotsPerExtent = none
        | some (idx, slot) => Claimed s idx slot c s')
      (fun e s' => e = .stopped ∧ s' = s ∨ e = .refused ∧ ∃ idx slot, Claimed s idx slot c s') := by
  induction candidates with
  | nil => exact spec_pure ⟨rfl, by simp⟩
  | cons idx rest ih =>
    refine spec_bind (spec_weaken (tryAllocate_spec writable (inside idx List.mem_cons_self)) (fun _ _ h => h) ?_) ?_
    · rintro e s' (stopped | ⟨refused, slot, first, rfl⟩)
      · exact .inl stopped
      · obtain ⟨below, free⟩ := Bitmap.firstFree_some first
        exact .inr ⟨refused, idx, slot, known idx List.mem_cons_self, below, free, rfl⟩
    intro found s' h
    cases found with
    | some slot =>
      obtain ⟨first, rfl⟩ := h
      obtain ⟨below, free⟩ := Bitmap.firstFree_some first
      exact spec_pure ⟨known idx List.mem_cons_self, below, free, rfl⟩
    | none =>
      obtain ⟨rfl, full⟩ := h
      refine spec_weaken (ih (fun i mem => inside i (List.mem_cons_of_mem _ mem))
        fun i mem => known i (List.mem_cons_of_mem _ mem)) ?_ fun _ _ h => h
      intro found s'' h
      cases found with
      | none =>
        refine ⟨h.1, fun i mem => ?_⟩
        rcases List.mem_cons.mp mem with rfl | later
        · exact full
        · exact h.2 i later
      | some pair => exact h

theorem tryExtents_full {candidates : List UInt32} {limit : Limit} (writable : s.file.writable = true)
    (inside : ∀ idx ∈ candidates,
      idx.toNat * extentSize + extentHeaderLen + bitmapBytes ≤ s.file.mappedLen)
    (full : ∀ idx ∈ candidates, Bitmap.firstFree s.file.bytes
      (idx.toNat * extentSize + extentHeaderLen) c.slotsPerExtent = none) :
    ExtentManager.tryExtents c candidates ⟨s, limit⟩ = .ok none ⟨s, limit⟩ := by
  induction candidates with
  | nil => rfl
  | cons idx rest ih =>
    have tried : ExtentManager.tryAllocateInExtent idx c ⟨s, limit⟩ = .ok none ⟨s, limit⟩ := by
      have fits := inside idx List.mem_cons_self
      have none := full idx List.mem_cons_self
      simp only [ExtentManager.tryAllocateInExtent, bind, EStateM.bind, view, writable, Bool.not_true,
        Bool.false_eq_true, if_false, ExtentManager.extentOffset, fits, if_true, none]
      rfl
    have later := ih (fun i mem => inside i (List.mem_cons_of_mem _ mem))
      fun i mem => full i (List.mem_cons_of_mem _ mem)
    simp only [ExtentManager.tryExtents, bind, EStateM.bind, tried, later]

/-- What an allocation has done that was cut short. -/
inductive Cut (page : PageSize) (s : ExtentManager) (k : Nat) (c : BlockClass) : Fault → ExtentManager → Prop where
  | untouched {e : Fault} (outside : e.Outside) : Cut page s k c e s
  | grown {s' : ExtentManager} (full : Full s c) (grown : Grown s k s') : Cut page s k c .stopped s'
  | claimed {idx slot : UInt32} {s' : ExtentManager} (claimed : Claimed s idx slot c s') : Cut page s k c .refused s'
  | added {s' : ExtentManager} (full : Full s c) (added : Added page s k c s') : Cut page s k c .refused s'

theorem Cut.outside {e : Fault} (cut : Cut page s k c e s') : e.Outside := by
  cases cut with
  | untouched outside => exact outside
  | grown full grown => exact .inl rfl
  | claimed claimed => exact .inr rfl
  | added full added => exact .inr rfl

theorem allocate_spec {limit : Limit} {size : Nat} (class_ : BlockClass.forSize size = .ok c)
    (writable : s.file.writable = true)
    (inside : ∀ idx ∈ s.candidateIndices c,
      idx.toNat * extentSize + extentHeaderLen + bitmapBytes ≤ s.file.mappedLen)
    (room : Full s c → Room s k) (listed : Full s c → limit ≠ .refuse 1) :
    SpecAt limit (ExtentManager.allocate page size) s
      (fun p s' => p.fileId = s.fileId ∧ p.blockClass = UInt8.ofNat c.index ∧
        (Claimed s p.extentIndex p.slotIndex c s' ∨
          Full s c ∧ p.extentIndex = UInt32.ofNat k ∧ p.slotIndex = 0 ∧ Added page s k c s'))
      (Cut page s k c) := by
  refine specAt_view_bind ?_
  simp only [class_, ofExcept]
  refine specAt_pure_bind ?_
  by_cases full : Full s c
  · refine specAt_step (tryExtents_full writable inside full) ?_
    refine specAt_bind (specAt_weaken (allocateInNewExtent_spec (room full) (listed full)) (fun _ _ h => h) ?_) ?_
    · rintro e s' - (⟨outside, rfl⟩ | ⟨rfl, grown⟩ | ⟨rfl, added⟩)
      · exact .untouched outside
      · exact .grown full grown
      · exact .added full added
    · rintro a s' ⟨rfl, added⟩
      exact spec_pure ⟨rfl, rfl, .inr ⟨full, rfl, rfl, added⟩⟩
  · have found : Spec (ExtentManager.tryExtents c (s.candidateIndices c)) s _ _ :=
      tryExtents_spec writable inside fun _ mem => mem
    refine specAt_bind (spec_weaken found (fun _ _ h => h) ?_ limit) ?_
    · rintro e s' (⟨rfl, rfl⟩ | ⟨rfl, idx, slot, claimed⟩)
      · exact .untouched (.inl rfl)
      · exact .claimed claimed
    intro found s' h
    cases found with
    | some pair => exact spec_pure_bind (spec_pure ⟨rfl, rfl, .inl h⟩)
    | none => exact absurd h.2 full

theorem allocate_error (page : PageSize) (s : ExtentManager) {size : Nat} {error : Error}
    (h : BlockClass.forSize size = .error error) :
    Spec (ExtentManager.allocate page size) s (fun _ _ => False)
      (fun e s' => e = .raised error ∧ s' = s) := by
  have none : Spec (ofExcept (BlockClass.forSize size)) s (fun _ _ => False)
      (fun e s' => e = .raised error ∧ s' = s) := by
    rw [h]
    exact spec_raise ⟨rfl, rfl⟩
  exact spec_view_bind (spec_bind none fun _ _ no => no.elim)

-- Without a stop allocate always returns a slot.
theorem allocate_run (page : PageSize) {size : Nat} (class_ : BlockClass.forSize size = .ok c)
    (writable : s.file.writable = true)
    (inside : ∀ idx ∈ s.candidateIndices c,
      idx.toNat * extentSize + extentHeaderLen + bitmapBytes ≤ s.file.mappedLen)
    (room : Full s c → Room s k) :
    ∃ p s', (ExtentManager.allocate page size).run s = (.ok p, s') ∧ p.fileId = s.fileId ∧
      p.blockClass = UInt8.ofNat c.index ∧
      (Claimed s p.extentIndex p.slotIndex c s' ∨
        Full s c ∧ p.extentIndex = UInt32.ofNat k ∧ p.slotIndex = 0 ∧ Added page s k c s') := by
  have spec : SpecAt .none (ExtentManager.allocate page size) s _ _ :=
    allocate_spec class_ writable inside room fun _ => by simp
  have ran := spec.run
  rcases made : (ExtentManager.allocate page size).run s with ⟨result, s'⟩
  rw [made] at ran
  cases result with
  | error e => exact absurd ran.1.outside (not_or.mpr ran.2)
  | ok p => exact ⟨p, s', rfl, ran⟩

end Allocating

end Gems.Storage
