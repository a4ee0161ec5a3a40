import Gems.Storage.Alloc
import Gems.Lib.Lists

set_option autoImplicit false

namespace Gems.Storage

open Lib Prog

-- The number of extents the mapping has room for is the number there are.
def Level (s : ExtentManager) : Prop := s.file.mappedLen / extentSize = s.extents.length

variable {page : PageSize} {s s' : ExtentManager} {live : Set SlotPointer} {p q : SlotPointer}
  {c d : BlockClass} {n : Nat} {idx slot : UInt32}

theorem BlockClass.fromIndex_index (c : BlockClass) : fromIndex c.index = .ok c := by
  rw [fromIndex, dif_pos c.small]

theorem BlockClass.toNat_index (c : BlockClass) : (UInt8.ofNat c.index).toNat = c.index := by
  have := c.small
  rw [UInt8.toNat_ofNat', Nat.mod_eq_of_lt (by omega)]

theorem BlockClass.index_of_fromIndex {index : Nat} (h : fromIndex index = .ok c) :
    index = c.index := by
  unfold fromIndex at h
  split at h
  · rw [← Except.ok.inj h]
  · cases h

theorem slotOffset_of_kind (file : p.fileId = s.fileId) (kind : p.blockClass.toNat = c.index) :
    s.slotOffset p = .ok (slotBase p c, c) := by
  rw [ExtentManager.slotOffset, if_neg (by simpa using file), kind, c.fromIndex_index]
  rfl

theorem Lives.slotOffset {bytes : Bytes} (h : Lives s.fileId bytes n p c) :
    s.slotOffset p = .ok (slotBase p c, c) :=
  slotOffset_of_kind h.file h.kind

theorem mem_candidateIndices {i : Nat} :
    UInt32.ofNat i ∈ s.candidateIndices c ↔
      ∃ j, s.extents[j]? = some c ∧ UInt32.ofNat j = UInt32.ofNat i := by
  simp [ExtentManager.candidateIndices, List.mem_zipIdx_iff_getElem?]

theorem extents_of_candidate (few : s.extents.length < 2 ^ 32) (mem : idx ∈ s.candidateIndices c) :
    s.extents[idx.toNat]? = some c := by
  rw [← UInt32.ofNat_toNat (x := idx)] at mem
  obtain ⟨j, here, same⟩ := mem_candidateIndices.mp mem
  obtain ⟨inside, -⟩ := List.getElem?_eq_some_iff.mp here
  have index := toNat_ofNat32 (k := j) (by omega)
  rw [UInt32.ofNat_toNat] at same
  rw [← same, index]
  exact here

theorem header_inside {i : Nat} (inside : i < n) :
    i * extentSize + extentHeaderLen + bitmapBytes ≤ n * extentSize := by
  have whole : (i + 1) * extentSize ≤ n * extentSize := Nat.mul_le_mul_right _ inside
  have header : extentHeaderLen + bitmapBytes ≤ extentSize := by
    rw [extentSize_eq]
    decide
  rw [Nat.add_mul, Nat.one_mul] at whole
  omega

theorem Held.extents_le (held : Held page s live) :
    s.extents.length * extentSize ≤ s.file.mappedLen := by
  rw [held.mapped]
  exact Nat.mul_le_mul_left _ (extentSize_le_stride page)

theorem Held.inside (held : Held page s live) (few : s.extents.length < 2 ^ 32)
    (mem : idx ∈ s.candidateIndices c) :
    idx.toNat * extentSize + extentHeaderLen + bitmapBytes ≤ s.file.mappedLen := by
  obtain ⟨inside, -⟩ := List.getElem?_eq_some_iff.mp (extents_of_candidate few mem)
  exact (header_inside inside).trans held.extents_le

theorem Held.room (held : Held page s live) (few : s.extents.length < 2 ^ 32) (level : Level s) :
    Room s s.extents.length where
  index := level
  small := by omega
  blank := held.laid.blank
  tail := fun i out => held.laid.blank i (held.laid.extents_le.trans out)
  writable := held.writable

theorem Held.marked (held : Held page s live) {i j : Nat} (known : s.extents[i]? = some c)
    (below : j < c.slotsPerExtent) {value : Bool}
    (safe : value = false → ∀ p ∈ live, p.extentIndex.toNat = i → p.slotIndex.toNat ≠ j) :
    Held page (withMark s (i * extentSize + extentHeaderLen) j value) live := by
  obtain ⟨inside, -⟩ := List.getElem?_eq_some_iff.mp known
  have few := c.slotsPerExtent_le
  have byte : j / 8 < bitmapBytes := by omega
  exact
    { laid := by
        rw [withMark_fileId, withMark_bytes, withMark_fileLen, withMark_extents]
        exact held.laid.mark inside byte safe
      extents := by
        intro e d here
        rw [withMark_extents] at here
        rw [withMark_bytes, bitmap_frame byte (class_apart e i), held.extents e d here]
      mapped := by rw [withMark_mappedLen, withMark_extents, held.mapped]
      writable := by rw [withMark_writable, held.writable] }

theorem Held.subset {live' : Set SlotPointer} (held : Held page s live) (sub : live' ⊆ live) :
    Held page s live' :=
  { held with laid := held.laid.subset sub }

theorem Held.onDisk (held : Held page s live) : Laid page s.fileId s.file.onDisk.bytes
    s.file.onDisk.len s.extents.length live := by
  rw [ExtentFile.onDisk, held.laid.truncate_eq]
  exact held.laid

theorem Held.with (held : Held page s live)
    (lives : Lives s.fileId s.file.bytes s.extents.length p c) : Held page s (insert p live) := by
  refine { held with laid := { held.laid with live := ?_ } }
  rintro q (rfl | old)
  · exact ⟨c, lives⟩
  · exact held.laid.live q old

theorem Held.claimed (held : Held page s live) (few : s.extents.length < 2 ^ 32)
    (file : p.fileId = s.fileId) (kind : p.blockClass = UInt8.ofNat c.index)
    (claimed : Claimed s p.extentIndex p.slotIndex c s') :
    p ∉ live ∧ Held page s' (insert p live) := by
  have known := extents_of_candidate few claimed.candidate
  obtain ⟨inside, -⟩ := List.getElem?_eq_some_iff.mp known
  constructor
  · intro mem
    obtain ⟨d, lives⟩ := held.laid.live p mem
    exact absurd claimed.free (by simp [lives.marked])
  have safe : true = false → ∀ q ∈ live, q.extentIndex.toNat = p.extentIndex.toNat →
      q.slotIndex.toNat ≠ p.slotIndex.toNat := by simp
  have held' := held.marked known claimed.below safe
  have mark : Bitmap.get s'.file.bytes (p.extentIndex.toNat * extentSize + extentHeaderLen)
      p.slotIndex.toNat = true := by
    rw [claimed.state, withMark_bytes, Bitmap.get_set, if_pos rfl]
  have same : s'.fileId = s.fileId ∧ s'.extents = s.extents := by
    rw [claimed.state, withMark_fileId, withMark_extents]
    exact ⟨rfl, rfl⟩
  rw [← claimed.state] at held'
  rw [← same.1] at file
  rw [← same.2] at known inside
  exact held'.with ⟨file, inside, by rw [kind, c.toNat_index], held'.extents _ c known,
    claimed.below, mark⟩

theorem Grown.same_below (grown : Grown s n s') {i j : Nat} (inside : i < n) (below : j < extentSize) :
    s'.file.bytes (i * extentSize + j) = s.file.bytes (i * extentSize + j) := by
  have whole : (i + 1) * extentSize ≤ n * extentSize := Nat.mul_le_mul_right _ inside
  rw [Nat.add_mul, Nat.one_mul] at whole
  exact grown.same _ (.inl (by omega))

theorem Held.grown (held : Held page s live) (grown : Grown s s.extents.length s') :
    Laid page s'.fileId s'.file.bytes s'.file.fileLen (s.extents.length + 1) live where
  len := by
    rw [grown.len, held.mapped, if_neg (by omega), Nat.add_sub_cancel]
  blank := by
    intro i out
    have header : extentHeaderLen < extentSize := by
      rw [extentSize_eq]
      decide
    rw [Nat.add_mul, Nat.one_mul] at out
    rw [grown.same i (.inr (by omega)), held.laid.blank i (by omega)]
  classes := by
    intro i below
    rcases Nat.lt_or_eq_of_le (Nat.le_of_lt_succ below) with old | rfl
    · rw [grown.same_below old (by rw [extentSize_eq]; decide)]
      exact held.laid.classes i old
    · exact grown.class_
  live := by
    intro p mem
    obtain ⟨c, lives⟩ := held.laid.live p mem
    have header : dataOffset ≤ extentSize := by
      rw [extentSize_eq]
      decide
    have whole : (p.extentIndex.toNat + 1) * extentSize ≤ s.extents.length * extentSize :=
      Nat.mul_le_mul_right _ lives.inside
    rw [Nat.add_mul, Nat.one_mul] at whole
    rw [grown.fileId]
    exact ⟨c, lives.frame (Nat.le_succ _) fun i _ _ => grown.same i (.inl (by omega))⟩

theorem Held.added (held : Held page s live) (few : s.extents.length < 2 ^ 32)
    (file : p.fileId = s.fileId) (kind : p.blockClass = UInt8.ofNat c.index)
    (extent : p.extentIndex = UInt32.ofNat s.extents.length) (first : p.slotIndex = 0)
    (added : Added page s s.extents.length c s') : p ∉ live ∧ Held page s' (insert p live) := by
  have index : p.extentIndex.toNat = s.extents.length := by rw [extent, toNat_ofNat32 few]
  have zero : p.slotIndex.toNat = 0 := by
    rw [first]
    rfl
  have count : s'.extents.length = s.extents.length + 1 := by
    rw [added.extents, List.length_append, List.length_singleton]
  constructor
  · intro mem
    obtain ⟨d, lives⟩ := held.laid.live p mem
    exact absurd lives.inside (by omega)
  have held' : Held page s' live :=
    { laid := by
        rw [count]
        exact held.grown added.toGrown
      extents := by
        intro i d here
        rw [added.extents] at here
        obtain ⟨inside, -⟩ := List.getElem?_eq_some_iff.mp here
        rw [List.length_append, List.length_singleton] at inside
        rcases Nat.lt_or_eq_of_le (Nat.le_of_lt_succ inside) with old | rfl
        · rw [List.getElem?_append_left old] at here
          rw [added.same_below old (by rw [extentSize_eq]; decide), held.extents i d here]
        · rw [List.getElem?_concat_length] at here
          rw [added.recorded, Option.some.inj here]
      mapped := by rw [added.mapped, held.mapped, roundUpToOsPage_stride, count]
      writable := added.writable }
  have inside : p.extentIndex.toNat < s'.extents.length := by omega
  rw [← added.fileId] at file
  refine held'.with ⟨file, inside, by rw [kind, c.toNat_index], ?_, ?_, ?_⟩
  · rw [index, added.recorded]
  · rw [zero]
    exact c.slotsPerExtent_pos
  · rw [index, zero]
    exact added.marked

theorem Claimed.payload (claimed : Claimed s idx slot c s') {i : Nat} (payload : Payload n i) :
    s'.file.bytes i = s.file.bytes i := by
  have apart := payload.2 idx.toNat
  have few := c.slotsPerExtent_le
  have below := claimed.below
  rw [dataOffset_eq] at apart
  rw [claimed.state, withMark_bytes, bitmap_frame (by omega)]
  rw [extentHeaderLen_eq, bitmapBytes_eq]
  omega

theorem Level.few (level : Level s) (held : Held page s live) : s.extents.length < 4114 := by
  rw [Level, held.mapped] at level
  exact few_extents level

structure Taken (page : PageSize) (s : ExtentManager) (live : Set SlotPointer) (c : BlockClass) (p : SlotPointer)
    (s' : ExtentManager) : Prop where
  fresh : p ∉ live
  kind : p.blockClass = UInt8.ofNat c.index
  held : Held page s' (insert p live)
  few : s'.extents.length ≤ 4114
  same : ∀ i, Payload s.extents.length i → s'.file.bytes i = s.file.bytes i
  file : s'.fileId = s.fileId
  count : s'.extents.length = s.extents.length ∨ Full s c ∧ s'.extents.length = s.extents.length + 1

-- What an allocation has done that was cut short.
inductive Interrupted (page : PageSize) (s : ExtentManager) (live : Set SlotPointer) (c : BlockClass) :
    Fault → ExtentManager → Prop where
  | untouched {e : Fault} (outside : e.Outside) : Interrupted page s live c e s
  | grown {s' : ExtentManager} (full : Full s c) (grown : Grown s s.extents.length s') :
    Interrupted page s live c .stopped s'
  | taken {s' : ExtentManager} (p : SlotPointer) (taken : Taken page s live c p s') :
    Interrupted page s live c .refused s'

theorem Interrupted.outside {e : Fault} (cut : Interrupted page s live c e s') : e.Outside := by
  cases cut with
  | untouched outside => exact outside
  | grown full grown => exact .inl rfl
  | taken p taken => exact .inr rfl

theorem Held.taken_claimed (held : Held page s live) (few : s.extents.length ≤ 4114) (file : p.fileId = s.fileId)
    (kind : p.blockClass = UInt8.ofNat c.index) (claimed : Claimed s p.extentIndex p.slotIndex c s') :
    Taken page s live c p s' := by
  obtain ⟨fresh, held'⟩ := held.claimed (by omega) file kind claimed
  have same : s'.extents.length = s.extents.length := by rw [claimed.state, withMark_extents]
  refine ⟨fresh, kind, held', same ▸ few, fun i => claimed.payload, ?_, .inl same⟩
  rw [claimed.state, withMark_fileId]

theorem Held.taken_added (held : Held page s live) (few : s.extents.length ≤ 4114) (file : p.fileId = s.fileId)
    (kind : p.blockClass = UInt8.ofNat c.index) (extent : p.extentIndex = UInt32.ofNat s.extents.length)
    (first : p.slotIndex = 0) (full : Full s c) (level : Level s) (added : Added page s s.extents.length c s') :
    Taken page s live c p s' := by
  obtain ⟨fresh, held'⟩ := held.added (by omega) file kind extent first added
  have below := level.few held
  have more : s'.extents.length = s.extents.length + 1 := by
    rw [added.extents, List.length_append, List.length_singleton]
  exact ⟨fresh, kind, held', by omega, fun i payload => added.same i (.inl payload.1), added.fileId,
    .inr ⟨full, more⟩⟩

theorem Held.allocate {limit : Limit} {size : Nat} (held : Held page s live) (few : s.extents.length ≤ 4114)
    (class_ : BlockClass.forSize size = .ok c) (level : Full s c → Level s) (listed : Full s c → limit ≠ .refuse 1) :
    SpecAt limit (ExtentManager.allocate page size) s (Taken page s live c) (Interrupted page s live c) := by
  have inside := fun idx (mem : idx ∈ s.candidateIndices c) => held.inside (by omega) mem
  have allocated : SpecAt limit (ExtentManager.allocate page size) s _ _ := allocate_spec class_ held.writable inside
    (fun full => held.room (by omega) (level full)) listed
  refine specAt_weaken allocated ?_ ?_
  · rintro p s' ⟨file, kind, claimed | ⟨full, extent, first, added⟩⟩
    · exact held.taken_claimed few file kind claimed
    · exact held.taken_added few file kind extent first full (level full) added
  · intro e s' _ cut
    cases cut with
    | untouched outside => exact .untouched outside
    | grown full grown => exact .grown full grown
    | @claimed idx slot _ claimed =>
      exact .taken ⟨s.fileId, idx, slot, UInt8.ofNat c.index⟩ (held.taken_claimed few rfl rfl claimed)
    | added full added =>
      exact .taken ⟨s.fileId, UInt32.ofNat s.extents.length, 0, UInt8.ofNat c.index⟩
        (held.taken_added few rfl rfl rfl rfl full (level full) added)

-- `free` until its sync.
def ExtentManager.clear (ptr : SlotPointer) : Gems.Prog ExtentManager Unit := do
  let s ← view
  if ptr.fileId ≠ s.fileId then raise (.invalidValue "SlotPointer belongs to a different file")
  else if !s.file.writable then raise (.invalidValue "extent file is not writable")
  else
    let bitmapBase := extentOffset ptr.extentIndex + extentHeaderLen
    if bitmapBase + bitmapBytes ≤ s.file.mappedLen ∧ ptr.slotIndex.toNat / 8 < bitmapBytes then
      write fun s =>
        { s with file.bytes := Bitmap.set s.file.bytes bitmapBase ptr.slotIndex.toNat false }
    else fail .panicked

theorem free_eq (ptr : SlotPointer) : ExtentManager.free ptr =
    ExtentManager.clear ptr >>= fun _ => ExtentManager.onFile ExtentFile.syncRange := by
  rw [ExtentManager.free, ExtentManager.clear, bind_assoc]
  congr 1
  funext s
  split
  next => rfl
  next =>
    split
    next => rfl
    next =>
      dsimp only
      split
      next => rfl
      next => rfl

structure Cleared (page : PageSize) (s : ExtentManager) (live : Set SlotPointer) (p : SlotPointer)
    (s' : ExtentManager) : Prop where
  held : Held page s' (live \ {p})
  extents : s'.extents = s.extents
  file : s'.fileId = s.fileId
  same : ∀ i, Payload s.extents.length i → s'.file.bytes i = s.file.bytes i

theorem Held.clear (held : Held page s live) (mem : p ∈ live) :
    Spec (ExtentManager.clear p) s (fun _ => Cleared page s live p) (fun e s' => e = .stopped ∧ s' = s) := by
  obtain ⟨c, lives⟩ := held.laid.live p mem
  have byte := slot_byte lives.slot
  obtain ⟨d, known⟩ : ∃ d, s.extents[p.extentIndex.toNat]? = some d :=
    ⟨_, List.getElem?_eq_getElem lives.inside⟩
  have inside := (header_inside lives.inside).trans held.extents_le
  obtain rfl : d = c := BlockClass.ext_index (by rw [← held.extents _ d known, lives.recorded])
  refine spec_view_bind ?_
  simp only [lives.file, ne_eq, not_true_eq_false, if_false, held.writable, Bool.not_true,
    Bool.false_eq_true, ExtentManager.extentOffset, inside, byte, and_self, if_true]
  refine spec_write (s := s) ?_ ⟨rfl, rfl⟩
  have safe : false = false → ∀ q ∈ live \ {p}, q.extentIndex.toNat = p.extentIndex.toNat →
      q.slotIndex.toNat ≠ p.slotIndex.toNat := by
    rintro - q ⟨old, other⟩ extent slot
    obtain ⟨e, lives'⟩ := held.laid.live q old
    exact other (lives'.eq_of_slot lives (UInt32.toNat_inj.mp extent) (UInt32.toNat_inj.mp slot))
  have held' : Held page s (live \ {p}) := held.subset Set.sdiff_subset
  refine ⟨held'.marked known lives.slot safe, rfl, rfl, fun i payload => ?_⟩
  have apart := payload.2 p.extentIndex.toNat
  rw [dataOffset_eq] at apart
  apply bitmap_frame byte
  rw [extentHeaderLen_eq, bitmapBytes_eq]
  omega

theorem Held.free (held : Held page s live) (mem : p ∈ live) :
    Spec (ExtentManager.free p) s (fun _ => Cleared page s live p)
      (fun e s' => e = .stopped ∧ s' = s ∨ e = .refused ∧ Cleared page s live p s') := by
  rw [free_eq]
  refine spec_bind (spec_weaken (held.clear mem) (fun _ _ h => h) fun _ _ h => .inl h) ?_
  exact fun _ s' cleared => sync_spec cleared (.inr ⟨rfl, cleared⟩)

theorem Lives.inside_map {bytes : Bytes} (h : Lives s.fileId bytes s.extents.length p c)
    (held : Held page s live) : slotBase p c + c.blockSize ≤ s.file.mappedLen := by
  have whole : (p.extentIndex.toNat + 1) * extentSize ≤ s.extents.length * extentSize :=
    Nat.mul_le_mul_right _ h.inside
  exact h.range.2.trans (whole.trans held.extents_le)

theorem Held.patched (held : Held page s live)
    (lives : Lives s.fileId s.file.bytes s.extents.length p c) {offset : Nat} {data : List UInt8}
    (at_ : offset = slotBase p c) (fits : data.length ≤ c.blockSize) :
    Held page { s with file.bytes := patch s.file.bytes offset data } live := by
  have same (i j : Nat) (lo : j * extentSize ≤ i) (hi : i < j * extentSize + dataOffset) :
      patch s.file.bytes offset data i = s.file.bytes i := by
    have off := lives.off_headers j
    exact patch_outside (by omega)
  have class_ (j : Nat) : patch s.file.bytes offset data (j * extentSize + 6) =
      s.file.bytes (j * extentSize + 6) := by
    have header := dataOffset_eq
    exact same _ j (by omega) (by omega)
  exact
    { laid :=
        { len := held.laid.len
          blank := by
            intro i (out : s.extents.length * extentSize ≤ i)
            have whole : (p.extentIndex.toNat + 1) * extentSize ≤ s.extents.length * extentSize :=
              Nat.mul_le_mul_right _ lives.inside
            have range := lives.range
            exact (patch_outside (by omega)).trans (held.laid.blank i out)
          classes := by
            intro j inside
            exact (congrArg UInt8.toNat (class_ j)).trans_lt (held.laid.classes j inside)
          live := by
            intro q mem
            obtain ⟨d, lives'⟩ := held.laid.live q mem
            exact ⟨d, lives'.frame le_rfl fun i => same i _⟩ }
      extents := fun j d known => (congrArg UInt8.toNat (class_ j)).trans (held.extents j d known)
      mapped := held.mapped
      writable := held.writable }

theorem Held.writeSlot (held : Held page s live)
    (lives : Lives s.fileId s.file.bytes s.extents.length p c) (data : List UInt8) :
    Spec (ExtentManager.writeSlot p data) s
      (fun _ s' => data.length ≤ c.blockSize ∧ Held page s' live ∧ s'.extents = s.extents ∧
        s' = { s with file.bytes := patch s.file.bytes (slotBase p c) data })
      (fun e s' => s' = s ∧ (e = .stopped ∨ c.blockSize < data.length ∧ ∃ error, e = .raised error) ∨
        e = .refused ∧ Held page s' live ∧ s'.extents = s.extents ∧
          s' = { s with file.bytes := patch s.file.bytes (slotBase p c) data }) := by
  refine spec_view_bind ?_
  simp only [lives.slotOffset, ofExcept]
  refine spec_pure_bind ?_
  dsimp only
  by_cases long : c.blockSize < data.length
  · rw [if_pos long]
    exact spec_raise (.inl ⟨rfl, .inr ⟨long, _, rfl⟩⟩)
  · have inside := lives.inside_map held
    rw [if_neg long]
    have fits : data.length ≤ c.blockSize := by omega
    have held' := held.patched lives rfl fits
    have put : Spec (ExtentManager.onFile (ExtentFile.put (slotBase p c) data)) s
        (fun _ s' => s' = { s with file.bytes := patch s.file.bytes (slotBase p c) data })
        (fun e s' => s' = s ∧ e = .stopped) := put_spec held.writable (by omega) rfl ⟨rfl, rfl⟩
    refine spec_bind (spec_weaken put (fun _ _ h => h) fun _ _ h => .inl ⟨h.1, .inl h.2⟩) ?_
    rintro - _ rfl
    exact sync_spec ⟨fits, held', rfl, rfl⟩ (.inr ⟨rfl, held', rfl, rfl⟩)

theorem Held.read (held : Held page s live)
    (lives : Lives s.fileId s.file.bytes s.extents.length p c) {len : Nat}
    (fits : len ≤ c.blockSize) : s.read p len = .ok (slice s.file.bytes (slotBase p c) len) := by
  have inside := lives.inside_map held
  rw [ExtentManager.read, lives.slotOffset]
  dsimp only
  rw [if_neg (by omega), if_pos (by omega)]

theorem Lives.read_long {bytes : Bytes} (lives : Lives s.fileId bytes n p c) {len : Nat}
    (long : c.blockSize < len) : s.read p len =
      .error (.raised (.invalidValue "requested length exceeds the slot's block class")) := by
  rw [ExtentManager.read, lives.slotOffset]
  exact if_pos long

theorem Laid.openFile {disk : DiskFile} {fileId : UInt32}
    (laid : Laid page fileId disk.bytes disk.len n live) (level : n * stride page / extentSize = n) :
    ∃ s, ExtentManager.openFile page disk fileId true = .ok s ∧ Held page s live ∧
      s.extents.length = n ∧ s.fileId = fileId ∧
      s.file = ExtentFile.openFile page disk true := by
  have mapped : (ExtentFile.openFile page disk true).mappedLen = n * stride page := laid.roundUp
  obtain ⟨extents, made, each⟩ := mapM_ok (l := List.range n)
    (f := fun i => BlockClass.fromIndex (disk.bytes (i * extentSize + 6)).toNat) (by
      intro i mem
      exact ⟨_, dif_pos (laid.classes i (List.mem_range.mp mem))⟩)
  have count : extents.length = n := by rw [← each.length_eq, List.length_range]
  refine ⟨{ file := ExtentFile.openFile page disk true, fileId, extents }, ?_, ?_, count, rfl, rfl⟩
  · rw [ExtentManager.openFile, mapped, level]
    simp only [bind, Except.bind, pure, Except.pure]
    rw [show (ExtentFile.openFile page disk true).bytes = disk.bytes from rfl, made]
  · exact
      { laid := by rwa [count]
        extents := by
          intro i c known
          obtain ⟨inside, -⟩ := List.getElem?_eq_some_iff.mp known
          have here := (List.forall₂_iff_get.mp each).2 i (by simpa using count ▸ inside) inside
          rw [List.get_eq_getElem, List.getElem_range] at here
          rw [List.getElem?_eq_getElem inside, Option.some.injEq] at known
          rw [List.get_eq_getElem, known] at here
          exact BlockClass.index_of_fromIndex here
        mapped := by rw [mapped, count]
        writable := rfl }

end Gems.Storage
