import Gems.Index.Image

set_option autoImplicit false

namespace Gems.Index

open Lib Prog

namespace Pager

-- The file of a pager whose header on disk is `h`.
def file (p : Pager) (h : Header) (free : List Nat) : Image := ⟨p.bytes, p.fileLen, h, free, p.held⟩

@[irreducible] def fileSeq (p : Pager) : Nat := ofLittleEndian (slice p.bytes 26 8)

-- The header in the file: the one in memory, but that the next commit number may not be written yet.
def fileHeader (p : Pager) : Header := { p.header with commitSeq := p.fileSeq }

def image (p : Pager) (free : List Nat) : Image := p.file p.fileHeader free

def flushed (p : Pager) : Pager :=
  { p with held := fun osPage => if osPage = 0 then [p.bytes] else p.held osPage }

theorem image_of_whole {p : Pager} {free : List Nat} (whole : p.fileHeader = p.header) :
    p.image free = p.file p.header free := by
  rw [image, whole]

theorem store_current (p : Pager) (bytes : Bytes) (osPage : Nat) :
    (p.store bytes).bytes ∈ (p.store bytes).held osPage := List.mem_cons_self

theorem flushed_current {p : Pager} (current : ∀ osPage, p.bytes ∈ p.held osPage) (osPage : Nat) :
    p.flushed.bytes ∈ p.flushed.held osPage := by
  by_cases first : osPage = 0
  · simp [flushed, first]
  · simpa [flushed, first] using current osPage

end Pager

/-- A pager at rest: its file is a valid image, mapped in full. -/
structure Good (p : Pager) (free : List Nat) : Prop where
  valid : (p.image free).Valid
  mapped : p.fileLen ≤ p.mappedLen
  current : ∀ osPage, p.bytes ∈ p.held osPage
  seq : p.header.commitSeq < 2 ^ 64

-- No further page id, or no further commit.
def Exhausted (h : Header) : Prop := h.pageCount + 1 = 2 ^ 32 ∨ h.commitSeq + 1 = 2 ^ 64

-- A program was cut short with the header `h` in the file; if by an error, the pager is at rest.
def Cut (e : Fault) (p : Pager) (h : Header) (free : List Nat) : Prop :=
  e = .stopped ∨ e = .refused ∧ Good p free ∧ p.fileHeader = h

-- What a program that did not return leaves on disk: only pages were taken since `m`.
def Halt (m : Image) (e : Fault) (p : Pager) : Prop :=
  ∃ h free taken, (p.file h free).Valid ∧ Moved m taken (p.file h free) ∧
    (Cut e p h free ∨ e = .panicked ∧ Exhausted p.header)

variable {os : PageSize} {p : Pager} {e : Fault} {m m' : Image} {h : Header}
  {taken free free' : List Nat} {i : Nat}

theorem Halt.after (moved : Moved m taken m') (halt : Halt m' e p) : Halt m e p := by
  obtain ⟨h, free, taken', valid, later, why⟩ := halt
  exact ⟨h, free, taken ++ taken', valid, moved.trans later, why⟩

theorem Halt.stop (valid : (p.file h free).Valid) (moved : Moved m taken (p.file h free)) :
    Halt m .stopped p :=
  ⟨h, free, taken, valid, moved, .inl (.inl rfl)⟩

theorem Halt.refuse (good : Good p free) (moved : Moved m taken (p.image free)) : Halt m .refused p :=
  ⟨p.fileHeader, free, taken, good.valid, moved, .inl (.inr ⟨rfl, good, rfl⟩)⟩

theorem Good.fits (good : Good p free) : p.header.Fits := { good.valid.fits with commitSeq := good.seq }

theorem slice_header {bytes bytes' : Bytes} (same : slice bytes' 0 headerEncodedLen = slice bytes 0 headerEncodedLen) :
    slice bytes' 26 8 = slice bytes 26 8 := by
  have part (bytes : Bytes) : ((slice bytes 0 headerEncodedLen).drop 26).take 8 = slice bytes 26 8 :=
    slice_slice (by decide)
  rw [← part, ← part, same]

-- A header write leaves nothing out.
theorem fileHeader_of_stored (stored : slice p.bytes 0 headerEncodedLen = p.header.encode)
    (seq : p.header.commitSeq < 2 ^ 64) : p.fileHeader = p.header := by
  have part : ((slice p.bytes 0 headerEncodedLen).drop 26).take 8 = slice p.bytes 26 8 := slice_slice (by decide)
  have same : p.fileSeq = p.header.commitSeq := by
    rw [Pager.fileSeq, ← part, stored]
    exact Header.commitSeq_encode seq
  rw [Pager.fileHeader, same]

theorem good_of_stored (valid : (p.file p.header free).Valid) (mapped : p.fileLen ≤ p.mappedLen)
    (current : ∀ osPage, p.bytes ∈ p.held osPage) : Good p free ∧ p.fileHeader = p.header := by
  have whole : p.fileHeader = p.header := fileHeader_of_stored valid.stored valid.fits.commitSeq
  refine ⟨⟨?_, mapped, current, valid.fits.commitSeq⟩, whole⟩
  rwa [Pager.image_of_whole whole]

theorem fileHeader_congr {p' : Pager} (header : p'.header = p.header)
    (same : slice p'.bytes 0 headerEncodedLen = slice p.bytes 0 headerEncodedLen) : p'.fileHeader = p.fileHeader := by
  rw [Pager.fileHeader, Pager.fileHeader, Pager.fileSeq, Pager.fileSeq, header, slice_header same]

theorem Good.page_inside (good : Good p free) (below : i < p.header.pageCount) :
    p.fileOffset i + p.header.pageSize ≤ p.fileLen :=
  (page_end below).trans good.valid.len

theorem Good.page (good : Good p free) (below : i < p.header.pageCount) :
    p.page i = .ok ((p.image free).pageAt i) := by
  have inside := (good.page_inside below).trans good.mapped
  rw [Pager.page, if_neg (by omega)]
  rfl

-- The first page is mapped, whatever the header in memory says.
theorem header_mapped (valid : (p.file h free).Valid) (mapped : p.fileLen ≤ p.mappedLen) :
    headerEncodedLen ≤ p.mappedLen := by
  have page := Nat.le_mul_of_pos_left h.pageSize valid.count
  exact valid.size.trans (page.trans (valid.len.trans mapped))

section Flush

variable {ok : Unit → Pager → Prop} {err : Fault → Pager → Prop} {offset len : Nat}

theorem syncRange_spec (inside : offset + len ≤ headerEncodedLen) (some : 0 < len)
    (mapped : headerEncodedLen ≤ p.mappedLen) (done : ok () p.flushed) (stop : err .stopped p)
    (refuse : err .refused p) : Spec (Pager.syncRange os offset len) p ok err := by
  have start : offset - (offset &&& (os.size - 1)) = 0 := by
    obtain ⟨k, large, eq⟩ := os.power
    have page : 2 ^ 12 ≤ 2 ^ k := Nat.pow_le_pow_right (by decide) large
    have short : headerEncodedLen < 2 ^ 12 := by decide
    rw [eq, Nat.and_two_pow_sub_one_eq_mod, Nat.mod_eq_of_lt (by omega), Nat.sub_self]
  have page : 4096 ≤ os.size := Nat.le_of_dvd os.positive os.dvd_4096
  have short : headerEncodedLen < 4096 := by decide
  have rounded : roundUpToOsPage os (offset + len) = os.size := by
    rw [roundUpToOsPage_eq, show offset + len + os.size - 1 = offset + len - 1 + os.size by omega,
      Nat.add_div_right _ os.positive, Nat.div_eq_of_lt (by omega), Nat.zero_add, Nat.one_mul]
  have here (osPage : Nat) :
      (0 ≤ osPage * os.size ∧ osPage * os.size < 0 + min (os.size - 0) (p.mappedLen - 0)) ↔
        osPage = 0 := by
    constructor
    · intro inside
      by_contra later
      have := Nat.le_mul_of_pos_left os.size (Nat.pos_of_ne_zero later)
      omega
    · rintro rfl
      omega
  refine spec_request ?_ stop refuse
  simp only [start, rounded, here]
  exact done

theorem writeAt_spec {data : List UInt8} (inside : offset + data.length ≤ p.mappedLen)
    (done : ok () (p.store (patch p.bytes offset data))) (stop : err .stopped p) :
    Spec (Pager.writeAt offset data) p ok err := by
  refine spec_view_bind ?_
  rw [if_neg (by omega)]
  exact spec_write done stop

theorem writeHeader_spec (mapped : headerEncodedLen ≤ p.mappedLen)
    (done : ok () (p.store (patch p.bytes 0 p.header.encode)).flushed) (stop : err .stopped p)
    (stop' : err .stopped (p.store (patch p.bytes 0 p.header.encode)))
    (refuse : err .refused (p.store (patch p.bytes 0 p.header.encode))) : Spec (Pager.writeHeader os) p ok err := by
  refine spec_view_bind ?_
  have base : p.fileOffset headerPageId = 0 := Nat.zero_mul _
  have inside : 0 + p.header.encode.length ≤ p.mappedLen := by rwa [p.header.length_encode, Nat.zero_add]
  have written : Spec (Pager.writeAt 0 p.header.encode) p
      (fun _ p' => p' = p.store (patch p.bytes 0 p.header.encode)) err :=
    writeAt_spec inside rfl stop
  rw [base]
  refine spec_bind written fun _ p' same => ?_
  rw [same]
  exact syncRange_spec (by rw [Nat.zero_add]) (by decide) mapped done stop' refuse

end Flush

theorem writeHeader_moves (valid : (p.file h free).Valid) (mapped : p.fileLen ≤ p.mappedLen)
    (valid' : Image.Valid ⟨patch p.bytes 0 p.header.encode, p.fileLen, p.header, free', p.held⟩)
    (kept : Kept (p.file h free) taken
      ⟨patch p.bytes 0 p.header.encode, p.fileLen, p.header, free', p.held⟩) :
    Spec (Pager.writeHeader os) p
      (fun _ p' => p'.header = p.header ∧ p'.fileHeader = p'.header ∧ Good p' free' ∧
        Moved (p.file h free) taken (p'.image free'))
      (Halt (p.file h free)) := by
  have stored : ((p.store (patch p.bytes 0 p.header.encode)).file p.header free').Valid :=
    { valid' with }
  have moved : Moved (p.file h free) taken
      ((p.store (patch p.bytes 0 p.header.encode)).file p.header free') :=
    Kept.stored stored { kept with } fun _ => rfl
  refine writeHeader_spec (header_mapped valid mapped) ?_ ?_ ?_ ?_
  · obtain ⟨good, whole⟩ := good_of_stored (p := (p.store (patch p.bytes 0 p.header.encode)).flushed)
      stored.flushed mapped (Pager.flushed_current (Pager.store_current _ _))
    refine ⟨rfl, whole, good, ?_⟩
    rw [Pager.image_of_whole whole]
    exact moved.flushed stored
  · exact Halt.stop valid (.refl _)
  · exact Halt.stop stored moved
  · obtain ⟨good, whole⟩ := good_of_stored (p := p.store (patch p.bytes 0 p.header.encode)) stored mapped
      (Pager.store_current _ _)
    have here : Moved (p.file h free) taken ((p.store (patch p.bytes 0 p.header.encode)).image free') := by
      rw [Pager.image_of_whole whole]
      exact moved
    exact Halt.refuse good here

theorem fillPage_spec (os : PageSize) {data : List UInt8} (start : m.Valid) (good : Good p free)
    (moved : Moved m taken (p.image free)) (mem : i ∈ taken)
    (fits : data.length = p.header.pageSize) :
    Spec (Pager.fillPage i (.ok data)) p
      (fun _ p' => p'.header = p.header ∧ p'.fileHeader = p.fileHeader ∧ Good p' free ∧
        Moved m taken (p'.image free) ∧ p'.bytes ∈ p'.held (i * p.header.pageSize / os.size) ∧
        (∀ osPage, ∀ bytes ∈ p.held osPage, bytes ∈ p'.held osPage) ∧
        (p'.image free).pageAt i = data ∧
        ∀ j, j ≠ i → (p'.image free).pageAt j = (p.image free).pageAt j)
      (Halt m) := by
  obtain ⟨used, fresh⟩ := moved.toKept.mem_taken start mem
  have inside := (good.page_inside used.2.1).trans good.mapped
  refine spec_view_bind ?_
  rw [if_neg (by omega)]
  refine spec_pure_bind (spec_write ?_ ?_)
  · have other (j : Nat) (apart : j ≠ i) : pageBytes (patch p.bytes (p.fileOffset i) data)
        p.header.pageSize j = pageBytes p.bytes p.header.pageSize j :=
      pageBytes_patch_other apart.symm fits.le
    have same : (p.store (patch p.bytes (p.fileOffset i) data)).fileHeader = p.fileHeader :=
      fileHeader_congr rfl (header_patch_page used.1 good.valid.size)
    have valid : ((p.store (patch p.bytes (p.fileOffset i) data)).image free).Valid := by
      rw [Pager.image, same]
      exact good.valid.fill used fits.le _
    have kept : Kept m taken ((p.store (patch p.bytes (p.fileOffset i) data)).image free) := by
      rw [Pager.image, same]
      exact
        { moved.toKept with
          same := fun j old =>
            (other j fun same => fresh (same ▸ old)).trans (moved.same j old) }
    refine ⟨rfl, same, ⟨valid, good.mapped, Pager.store_current _ _, good.seq⟩, ?_, List.mem_cons_self,
      fun _ _ mem => List.mem_cons_of_mem _ mem, pageBytes_patch_same fits, other⟩
    exact
      { kept with
        held := by
          intro osPage bytes mem
          rcases List.mem_cons.mp mem with rfl | before
          · exact .inr (kept.version (valid.version _))
          · exact moved.held osPage bytes before
        keeps := fun osPage later bytes mem =>
          List.mem_cons_of_mem _ (moved.keeps osPage later bytes mem) }
  · exact Halt.stop good.valid moved

section Allocate

-- The header on disk takes over the free pages and the page count of the header in memory.
theorem writeHeader_takes (taken : List Nat) (valid : (p.file h free).Valid) (mapped : p.fileLen ≤ p.mappedLen)
    (fits : p.header.Fits) (size : p.header.pageSize = h.pageSize)
    (root : p.header.rootPage = h.rootPage) (count : h.pageCount ≤ p.header.pageCount)
    (len : p.header.pageCount * h.pageSize ≤ p.fileLen)
    (chain : Chain p.bytes h.pageSize p.header.freeListHead free')
    (order : free ++ List.range' h.pageCount (p.header.pageCount - h.pageCount) = taken ++ free') :
    Spec (Pager.writeHeader os) p
      (fun _ p' => p'.header = p.header ∧ p'.fileHeader = p'.header ∧ Good p' free' ∧
        Moved (p.file h free) taken (p'.image free'))
      (Halt (p.file h free)) := by
  have kept : Kept (p.file h free) taken
      ⟨patch p.bytes 0 p.header.encode, p.fileLen, p.header, free', p.held⟩ :=
    { size := size
      root := root
      count := count
      order := order
      same := fun j used => by
        have encoded : 0 + p.header.encode.length ≤ headerEncodedLen := by
          rw [Header.length_encode, Nat.zero_add]
        rw [Image.pageAt, Image.pageAt, Pager.file, size]
        exact pageBytes_patch_header used.1 valid.size encoded }
  have valid' : Image.Valid ⟨patch p.bytes 0 p.header.encode, p.fileLen, p.header, free', p.held⟩ := by
    refine valid.store fits size (valid.count.trans count) len chain ?_ ?_ ?_ p.held
    · intro j mem
      rcases kept.mem_cases (.inr mem) with free | fresh
      · exact ⟨(valid.inside j free).1, (valid.inside j free).2.trans_le count⟩
      · exact ⟨valid.count.trans fresh.1, fresh.2⟩
    · exact (List.nodup_append.mp (kept.nodup valid)).2.1
    · exact fun j beyond => valid.blank j ((Nat.mul_le_mul_right _ count).trans beyond)
  exact writeHeader_moves valid mapped valid' kept

-- The file grows by a page that the header does not count yet.
theorem grow_valid (good : Good p free) {newLen : Nat} (held : Nat → List Bytes)
    (grown : p.header.pageCount * p.header.pageSize ≤ newLen) :
    Image.Valid ⟨truncate (truncate p.bytes p.fileLen) newLen, newLen, p.fileHeader, free, held⟩ ∧
      Kept (p.image free) []
        ⟨truncate (truncate p.bytes p.fileLen) newLen, newLen, p.fileHeader, free, held⟩ ∧
      slice (truncate (truncate p.bytes p.fileLen) newLen) 0 headerEncodedLen =
        slice p.bytes 0 headerEncodedLen := by
  have valid := good.valid
  have len : p.header.pageCount * p.header.pageSize ≤ p.fileLen := valid.len
  have first : headerEncodedLen ≤ p.header.pageCount * p.header.pageSize :=
    (show headerEncodedLen ≤ p.header.pageSize from valid.size).trans
      (Nat.le_mul_of_pos_left _ valid.count)
  have page {j : Nat} (below : j < p.header.pageCount) :
      pageBytes (truncate (truncate p.bytes p.fileLen) newLen) p.header.pageSize j =
        pageBytes p.bytes p.header.pageSize j := by
    have whole : j * p.header.pageSize + p.header.pageSize ≤
        p.header.pageCount * p.header.pageSize := page_end below
    rw [pageBytes_truncate (whole.trans grown), pageBytes_truncate (whole.trans len)]
  have stored : slice (truncate (truncate p.bytes p.fileLen) newLen) 0 headerEncodedLen =
      slice p.bytes 0 headerEncodedLen :=
    slice_congr fun j _ inside => by
      rw [truncate_inside (by omega), truncate_inside (by omega)]
  refine ⟨?_, ?_, stored⟩
  · exact
      { stored := stored.trans valid.stored
        fits := valid.fits
        size := valid.size
        count := valid.count
        len := grown
        chain := valid.chain.congr fun j free' => page (valid.inside j free').2
        inside := valid.inside
        nodup := valid.nodup
        blank := fun j beyond => by
          have zero : p.bytes j = 0 := valid.blank j beyond
          simp [truncate, zero] }
  · exact { Kept.refl _ with same := fun j used => page used.2.1 }

theorem countPage_spec (good : Good p []) (room : p.header.pageCount + 1 ≠ 2 ^ 32)
    (len : (p.header.pageCount + 1) * p.header.pageSize ≤ p.fileLen) :
    Spec (do
        update fun p => { p with header := { p.header with pageCount := p.header.pageCount + 1 } }
        Pager.writeHeader os
        pure p.header.pageCount) p
      (fun i p' => i = p.header.pageCount ∧ p'.fileHeader = p'.header ∧ Good p' [] ∧
        Moved (p.image []) [p.header.pageCount] (p'.image []))
      (Halt (p.image [])) := by
  have small : p.header.pageCount < 2 ^ 32 := good.valid.fits.pageCount
  let counted : Pager :=
    { p with header := { p.header with pageCount := p.header.pageCount + 1 } }
  have fits : counted.header.Fits :=
    { good.fits with
      pageCount := (show p.header.pageCount + 1 < 2 ^ 32 by omega) }
  have order : [] ++ List.range' p.header.pageCount (counted.header.pageCount - p.header.pageCount) =
      [p.header.pageCount] ++ [] := by
    rw [show counted.header.pageCount - p.header.pageCount = 1 from Nat.add_sub_cancel_left _ 1]
    rfl
  refine spec_update_bind (spec_bind (writeHeader_takes (p := counted) (h := p.fileHeader)
    [p.header.pageCount] good.valid good.mapped fits rfl rfl (Nat.le_succ _) len good.valid.chain order) ?_)
  exact fun _ p' here => spec_pure ⟨rfl, here.2⟩

theorem zero_head {bytes : Bytes} {size : Nat} (positive : 0 < size)
    (zero : pageBytes bytes size i = List.replicate size 0) : bytes (i * size) = 0 := by
  have first : (pageBytes bytes size i)[0]? = some (bytes (i * size)) := getElem?_slice positive
  rw [zero, List.getElem?_replicate, if_pos positive] at first
  exact (Option.some.inj first).symm

theorem allocatePage_spec (good : Good p free) :
    Spec (Pager.allocatePage os) p
      (fun i p' => p'.fileHeader = p'.header ∧ ∃ free', Good p' free' ∧
        Moved (p.image free) [i] (p'.image free') ∧ Blank os (p'.image free') [i])
      (Halt (p.image free)) := by
  have valid := good.valid
  refine spec_view_bind ?_
  by_cases popped : p.header.freeListHead ≠ 0
  · rw [if_pos popped]
    cases free with
    | nil => exact absurd valid.chain popped
    | cons i rest =>
      obtain ⟨head, chain⟩ := valid.chain
      have inside := valid.inside i List.mem_cons_self
      have small : ofLittleEndian (((p.image (i :: rest)).pageAt i).take 4) < 2 ^ 32 := by
        have bound := ofLittleEndian_lt (((p.image (i :: rest)).pageAt i).take 4)
        refine bound.trans_le ((Nat.pow_le_pow_right (by decide) (List.length_take_le 4 _)).trans ?_)
        decide
      have here : p.header.freeListHead = i := head
      simp only [here]
      rw [good.page inside.2]
      have popped : Spec (Pager.writeHeader os)
          { p with header := { p.header with
              freeListHead := ofLittleEndian (((p.image (i :: rest)).pageAt i).take 4) } }
          (fun _ p' => p'.header.pageSize = p.header.pageSize ∧ p'.fileHeader = p'.header ∧ Good p' rest ∧
            Moved (p.image (i :: rest)) [i] (p'.image rest)) (Halt (p.image (i :: rest))) := by
        refine spec_weaken (writeHeader_takes [i] valid good.mapped
          { good.fits with freeListHead := small } rfl rfl le_rfl valid.len chain (by simp [Pager.fileHeader]))
          (fun _ _ here => ⟨by rw [here.1], here.2⟩) fun _ _ halt => halt
      refine spec_pure_bind (spec_update_bind (spec_bind popped ?_))
      rintro - p1 ⟨same, whole, good1, moved⟩
      have size : (List.replicate p.header.pageSize (0 : UInt8)).length = p1.header.pageSize := by
        rw [List.length_replicate, same]
      refine spec_bind (fillPage_spec os valid good1 moved List.mem_cons_self size) ?_
      rintro - p2 ⟨same2, whole2, good2, moved2, held, -, content, -⟩
      refine spec_pure ⟨by rw [whole2, whole, same2], rest, good2, moved2, ?_⟩
      intro j mem large
      obtain rfl : j = i := List.mem_singleton.mp mem
      refine ⟨p2.bytes, ?_, ?_⟩
      · rw [← same2] at held
        exact held
      · have size2 : p2.header.pageSize = p.header.pageSize := by rw [same2, same]
        have page : pageBytes p2.bytes p2.header.pageSize j =
            List.replicate p2.header.pageSize 0 := by
          nth_rewrite 2 [size2]
          exact content
        have large : headerEncodedLen ≤ p2.header.pageSize := good2.valid.size
        exact zero_head ((show 0 < headerEncodedLen by decide).trans_le large) page
  · obtain rfl : free = [] := by
      cases free with
      | nil => rfl
      | cons i rest =>
        have head : p.header.freeListHead = i := valid.chain.1
        exact absurd (head ▸ (valid.inside i List.mem_cons_self).1)
          (by rw [not_not.mp popped]; decide)
    rw [if_neg popped]
    have newLen : p.fileOffset p.header.pageCount + p.header.pageSize =
        (p.header.pageCount + 1) * p.header.pageSize := by
      rw [Nat.add_mul, Nat.one_mul]
      rfl
    simp only [newLen]
    have more : p.header.pageCount * p.header.pageSize ≤
        (p.header.pageCount + 1) * p.header.pageSize := Nat.mul_le_mul_right _ (Nat.le_succ _)
    obtain ⟨grown, kept, front⟩ := grow_valid good
      (p.store (truncate (truncate p.bytes p.fileLen)
        ((p.header.pageCount + 1) * p.header.pageSize))).held more
    have moved := Kept.stored grown kept fun _ => rfl
    refine spec_request_bind (spec_update_bind ?_) (Halt.stop valid (.refl _)) (Halt.refuse good (.refl _))
    split
    next full => exact spec_fail ⟨_, _, _, grown, moved, .inr ⟨rfl, .inl full⟩⟩ (by simp)
    next room =>
      let grownPager : Pager :=
        { p.store (truncate (truncate p.bytes p.fileLen)
            ((p.header.pageCount + 1) * p.header.pageSize)) with
          fileLen := (p.header.pageCount + 1) * p.header.pageSize
          mappedLen := roundUpToOsPage os ((p.header.pageCount + 1) * p.header.pageSize) }
      have same : grownPager.fileHeader = p.fileHeader := fileHeader_congr rfl front
      have image : grownPager.image [] = ⟨grownPager.bytes, grownPager.fileLen, p.fileHeader, [], grownPager.held⟩ := by
        rw [Pager.image, same]
        rfl
      have good1 : Good grownPager [] :=
        ⟨image ▸ grown, le_roundUpToOsPage os _, fun _ => List.mem_cons_self, good.seq⟩
      have moved : Moved (p.image []) [] (grownPager.image []) := by
        rw [image]
        exact moved
      refine spec_weaken (countPage_spec good1 room le_rfl) ?_ fun _ _ halt => halt.after moved
      rintro i p' ⟨rfl, whole, good', moved'⟩
      refine ⟨whole, [], good', moved.trans moved', ?_⟩
      intro j mem large
      obtain rfl : j = p.header.pageCount := List.mem_singleton.mp mem
      rw [moved'.size] at large ⊢
      have beyond : p.header.pageCount * p.header.pageSize / os.size ≠ 0 :=
        (Nat.div_pos large os.positive).ne'
      refine ⟨grownPager.bytes, moved'.keeps _ beyond _ List.mem_cons_self, ?_⟩
      exact grown.blank _ le_rfl

end Allocate

section Publish

variable {root : Nat} {live : Nat → Prop}

theorem root_valid (valid : m.Valid) (small : root < 2 ^ 32) (held : Nat → List Bytes) :
    Image.Valid ⟨patch m.bytes rootPageOffset (littleEndian 4 root), m.len,
      { m.header with rootPage := root }, m.free, held⟩ := by
  have inside : rootPageOffset + (littleEndian 4 root).length ≤ headerEncodedLen := by
    rw [length_littleEndian]
    decide
  exact
    { stored := Header.patch_root valid.stored
      fits := { valid.fits with rootPage := small }
      size := valid.size
      count := valid.count
      len := valid.len
      chain := valid.chain.congr fun j free =>
        pageBytes_patch_header (valid.inside j free).1 valid.size inside
      inside := valid.inside
      nodup := valid.nodup
      blank := fun j beyond => by
        have page := Nat.le_mul_of_pos_left m.header.pageSize valid.count
        have large := valid.size
        dsimp only at beyond ⊢
        rw [patch_outside (.inr (by omega))]
        exact valid.blank j beyond }

theorem root_same (valid : m.Valid) : ∀ j, m.Used j →
    pageBytes (patch m.bytes rootPageOffset (littleEndian 4 root)) m.header.pageSize j = m.pageAt j :=
  fun _ used => pageBytes_patch_header used.1 valid.size (by rw [length_littleEndian]; decide)

theorem commit_moves (valid : (p.file h free).Valid) (mapped : p.fileLen ≤ p.mappedLen)
    (fits : p.header.Fits) (same : p.header = { h with commitSeq := p.header.commitSeq }) :
    Spec (Pager.writeHeader os) p
      (fun _ p' => Good p' free ∧
        Swapped (p.file h free) h.rootPage (p.file h free).Used (p'.image free) ∧
        p'.held 0 = [p'.bytes])
      (fun e p' => ∃ h', Cut e p' h' free ∧ (p'.file h' free).Valid ∧
        Swapped (p.file h free) h.rootPage (p.file h free).Used (p'.file h' free)) := by
  have size : p.header.pageSize = h.pageSize := by rw [same]
  have root : p.header.rootPage = h.rootPage := by rw [same]
  have count : p.header.pageCount = h.pageCount := by rw [same]
  have head : p.header.freeListHead = h.freeListHead := by rw [same]
  have stored : ((p.store (patch p.bytes 0 p.header.encode)).file p.header free).Valid :=
    valid.store fits size (count ▸ valid.count) (count ▸ valid.len) (head ▸ valid.chain)
      (count ▸ valid.inside) valid.nodup (count ▸ valid.blank) _
  have swapped : Swapped (p.file h free) h.rootPage (p.file h free).Used
      ((p.store (patch p.bytes 0 p.header.encode)).file p.header free) := by
    refine .stored stored size root count (fun j used => ?_) fun _ => rfl
    have encoded : 0 + p.header.encode.length ≤ headerEncodedLen := by
      rw [Header.length_encode, Nat.zero_add]
    rw [Image.pageAt, Image.pageAt, Pager.file, size]
    exact pageBytes_patch_header used.1 valid.size encoded
  refine writeHeader_spec (header_mapped valid mapped) ?_ ?_ ?_ ?_
  · obtain ⟨good, whole⟩ := good_of_stored (p := (p.store (patch p.bytes 0 p.header.encode)).flushed)
      stored.flushed mapped (Pager.flushed_current (Pager.store_current _ _))
    refine ⟨good, ?_, rfl⟩
    rw [Pager.image_of_whole whole]
    exact (swapped.flushed stored).1
  · exact ⟨h, .inl rfl, valid, .refl _⟩
  · exact ⟨p.header, .inl rfl, stored, swapped⟩
  · obtain ⟨good, whole⟩ := good_of_stored (p := p.store (patch p.bytes 0 p.header.encode)) stored mapped
      (Pager.store_current _ _)
    exact ⟨p.header, .inr ⟨rfl, good, whole⟩, stored, swapped⟩

-- A publication until the new root is in the file; it gives the place of the root field.
def Pager.writeRoot (newRoot : Nat) : Gems.Prog Pager Nat := do
  let p ← view
  if p.header.commitSeq + 1 = 2 ^ 64 then fail .panicked
  else do
    update fun p =>
      { p with header := { p.header with rootPage := newRoot, commitSeq := p.header.commitSeq + 1 } }
    let base := p.fileOffset headerPageId + rootPageOffset
    Pager.writeAt base (littleEndian 4 newRoot)
    pure base

def Pager.finishRoot (os : PageSize) (base : Nat) : Gems.Prog Pager Unit := do
  Pager.syncRange os base 4
  Pager.writeHeader os

theorem publishRoot_eq (os : PageSize) (newRoot : Nat) :
    Pager.publishRoot os newRoot = Pager.writeRoot newRoot >>= Pager.finishRoot os := by
  rw [Pager.publishRoot, Pager.writeRoot, bind_assoc]
  refine congrArg (view >>= ·) (funext fun p => ?_)
  split
  · rfl
  · simp only [bind_assoc, pure_bind]
    rfl

theorem writeRoot_spec (os : PageSize) (good : Good p free) (whole : p.fileHeader = p.header)
    (small : root < 2 ^ 32) :
    Spec (Pager.writeRoot root) p
      (fun base p' => Spec (Pager.finishRoot os base) p'
        (fun _ p' => Good p' free ∧
          Swapped (p.image free) root (p.image free).Used (p'.image free) ∧ p'.held 0 = [p'.bytes])
        fun e p' => ∃ h, Cut e p' h free ∧ (p'.file h free).Valid ∧
          Swapped (p.image free) root (p.image free).Used (p'.file h free))
      (Halt (p.image free)) := by
  have valid := good.valid
  rw [Pager.image_of_whole whole] at valid ⊢
  refine spec_view_bind ?_
  split
  next full => exact spec_fail ⟨_, _, _, valid, .refl _, .inr ⟨rfl, .inr full⟩⟩ (by simp)
  next room =>
    refine spec_update_bind ?_
    let published : Header :=
      { p.header with rootPage := root, commitSeq := p.header.commitSeq + 1 }
    let rooted : Header := { p.header with rootPage := root }
    let bytes := patch p.bytes rootPageOffset (littleEndian 4 root)
    let p1 : Pager := { p with header := published }
    have seq : p.header.commitSeq < 2 ^ 64 := valid.fits.commitSeq
    have fits : published.Fits :=
      { valid.fits with
        rootPage := small
        commitSeq := (show p.header.commitSeq + 1 < 2 ^ 64 by omega) }
    have base : p.fileOffset headerPageId + rootPageOffset = rootPageOffset := by
      rw [Pager.fileOffset, headerPageId, Nat.zero_mul, Nat.zero_add]
    have mapped : headerEncodedLen ≤ p1.mappedLen := header_mapped valid good.mapped
    have inside : rootPageOffset + (littleEndian 4 root).length ≤ headerEncodedLen := by
      rw [length_littleEndian]
      decide
    have stored : ((p1.store bytes).file rooted free).Valid := root_valid valid small _
    have swapped : Swapped (p.file p.header free) root (p.file p.header free).Used
        ((p1.store bytes).file rooted free) := .stored stored rfl rfl rfl (root_same valid) fun _ => rfl
    -- the commit number is in memory only
    have behind : (p1.store bytes).fileHeader = rooted := by
      have same : slice bytes 26 8 = slice p.bytes 26 8 :=
        slice_patch_apart (.inl (by rw [length_littleEndian]; decide))
      have seq : p.fileSeq = p.header.commitSeq := congrArg Header.commitSeq whole
      rw [Pager.fileSeq] at seq
      rw [Pager.fileHeader, Pager.fileSeq, show (p1.store bytes).bytes = bytes from rfl, same, seq]
      rfl
    have halfway : Good (p1.store bytes) free :=
      { valid := by rw [Pager.image, behind]; exact stored
        mapped := good.mapped
        current := Pager.store_current _ _
        seq := fits.commitSeq }
    rw [base]
    have written : Spec (Pager.writeAt rootPageOffset (littleEndian 4 root)) p1
        (fun _ p' => p' = p1.store bytes) (Halt (p.file p.header free)) :=
      writeAt_spec (inside.trans mapped) rfl (Halt.stop valid (.refl _))
    refine spec_bind written fun _ p' same => ?_
    subst same
    refine spec_pure ?_
    have synced : Spec (Pager.syncRange os rootPageOffset 4) (p1.store bytes)
        (fun _ p' => p' = (p1.store bytes).flushed) (fun e p' => ∃ h, Cut e p' h free ∧ (p'.file h free).Valid ∧
          Swapped (p.file p.header free) root (p.file p.header free).Used (p'.file h free)) :=
      syncRange_spec (by decide) (by decide) mapped rfl ⟨rooted, .inl rfl, stored, swapped⟩
        ⟨rooted, .inr ⟨rfl, halfway, behind⟩, stored, swapped⟩
    refine spec_bind synced fun _ p' same => ?_
    subst same
    have flushed := (swapped.flushed stored).1
    refine spec_weaken (commit_moves (p := (p1.store bytes).flushed) (h := rooted) stored.flushed
      good.mapped fits rfl) ?_ ?_
    · rintro - p' ⟨good', later, first⟩
      exact ⟨good', flushed.trans later fun _ used => used, first⟩
    · rintro e p' ⟨h, cut, valid', later⟩
      exact ⟨h, cut, valid', flushed.trans later fun _ used => used⟩

end Publish

section Free

variable {live : Nat → Prop}

-- A stop in between leaves the page neither free nor in use.
def Freeing (m : Image) (live : Nat → Prop) (i : Nat) (e : Fault) (p : Pager) : Prop :=
  ∃ h free, Cut e p h free ∧ (p.file h free).Valid ∧ (free = m.free ∨ free = i :: m.free) ∧
    Swapped m m.header.rootPage live (p.file h free)

theorem freePage_spec (live : Nat → Prop) (good : Good p free) (used : (p.image free).Used i) (dead : ¬ live i)
    (inside : ∀ j, live j → 1 ≤ j) :
    Spec (Pager.freePage os i) p
      (fun _ p' => Good p' (i :: free) ∧
        Swapped (p.image free) p.header.rootPage live (p'.image (i :: free)) ∧
        p'.held 0 = [p'.bytes])
      (Freeing (p.image free) live i) := by
  have valid := good.valid
  have mapped := (good.page_inside used.2.1).trans good.mapped
  have large : headerEncodedLen ≤ p.header.pageSize := valid.size
  have short : (littleEndian 4 p.header.freeListHead).length ≤ p.header.pageSize := by
    rw [length_littleEndian]
    exact (show 4 ≤ headerEncodedLen by decide).trans large
  let linked := p.store (patch p.bytes (p.fileOffset i) (littleEndian 4 p.header.freeListHead))
  have stored : (linked.file p.fileHeader free).Valid := valid.fill used short _
  have swapped : Swapped (p.image free) p.header.rootPage live (linked.file p.fileHeader free) :=
    .stored stored rfl rfl rfl
      (fun j here => pageBytes_patch_other (fun same => dead (same ▸ here)) short) fun _ => rfl
  refine spec_view_bind ?_
  rw [if_neg (by omega)]
  refine spec_write_bind (spec_update_bind ?_) ⟨p.fileHeader, free, .inl rfl, valid, .inl rfl, .refl _⟩
  let freed : Pager := { linked with header := { p.header with freeListHead := i } }
  have fits : freed.header.Fits :=
    { good.fits with freeListHead := used.2.1.trans valid.fits.pageCount }
  have next : ofLittleEndian ((pageBytes linked.bytes p.header.pageSize i).take 4) =
      p.header.freeListHead := by
    have front : (pageBytes linked.bytes p.header.pageSize i).take _ =
        littleEndian 4 p.header.freeListHead := pageBytes_patch_front short
    rw [length_littleEndian] at front
    exact (congrArg ofLittleEndian front).trans (ofLittleEndian_littleEndian valid.fits.freeListHead)
  have chain : Chain linked.bytes p.header.pageSize i (i :: free) :=
    ⟨rfl, next ▸ stored.chain⟩
  have stored' : ((freed.store (patch freed.bytes 0 freed.header.encode)).file
      freed.header (i :: free)).Valid := by
    refine stored.store fits rfl valid.count valid.len chain ?_ ?_ stored.blank _
    · intro j mem
      rcases List.mem_cons.mp mem with rfl | before
      · exact ⟨used.1, used.2.1⟩
      · exact valid.inside j before
    · exact List.nodup_cons.mpr ⟨used.2.2, valid.nodup⟩
  have swapped' : Swapped (linked.file p.fileHeader free) p.header.rootPage live
      ((freed.store (patch freed.bytes 0 freed.header.encode)).file freed.header (i :: free)) := by
    refine .stored stored' rfl rfl rfl (fun j here => ?_) fun _ => rfl
    have encoded : 0 + freed.header.encode.length ≤ headerEncodedLen := by
      rw [Header.length_encode, Nat.zero_add]
    exact pageBytes_patch_header (inside j here) large encoded
  have moved := swapped.trans swapped' fun _ here => here
  refine writeHeader_spec (header_mapped stored good.mapped) ?_ ?_ ?_ ?_
  · obtain ⟨good', whole⟩ := good_of_stored (p := (freed.store (patch freed.bytes 0 freed.header.encode)).flushed)
      stored'.flushed good.mapped (Pager.flushed_current (Pager.store_current _ _))
    have here : Swapped (p.image free) p.header.rootPage live
        ((freed.store (patch freed.bytes 0 freed.header.encode)).flushed.image (i :: free)) := by
      rw [Pager.image_of_whole whole]
      exact (moved.flushed stored').1
    exact ⟨good', here, rfl⟩
  · exact ⟨p.fileHeader, free, .inl rfl, stored, .inl rfl, swapped⟩
  · exact ⟨freed.header, i :: free, .inl rfl, stored', .inr rfl, moved⟩
  · obtain ⟨good', whole⟩ := good_of_stored (p := freed.store (patch freed.bytes 0 freed.header.encode)) stored'
      good.mapped (Pager.store_current _ _)
    exact ⟨freed.header, i :: free, .inr ⟨rfl, good', whole⟩, stored', .inr rfl, moved⟩

end Free

end Gems.Index
