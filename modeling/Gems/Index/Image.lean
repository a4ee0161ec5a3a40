import Gems.Index.Pager

set_option autoImplicit false

namespace Gems.Index

open Lib

def pageBytes (bytes : Bytes) (size i : Nat) : List UInt8 := slice bytes (i * size) size

-- The free list: every free page starts with the id of the next one.
def Chain (bytes : Bytes) (size : Nat) : Nat → List Nat → Prop
  | head, [] => head = 0
  | head, i :: rest =>
    head = i ∧ Chain bytes size (ofLittleEndian ((pageBytes bytes size i).take 4)) rest

/-- An index file as the next open finds it, with the pages on its free list. -/
structure Image where
  bytes : Bytes
  len : Nat
  header : Header
  free : List Nat
  held : Nat → List Bytes

namespace Image

structure Valid (m : Image) : Prop where
  stored : slice m.bytes 0 headerEncodedLen = m.header.encode
  fits : m.header.Fits
  size : headerEncodedLen ≤ m.header.pageSize
  count : 1 ≤ m.header.pageCount
  len : m.header.pageCount * m.header.pageSize ≤ m.len
  chain : Chain m.bytes m.header.pageSize m.header.freeListHead m.free
  inside : ∀ i ∈ m.free, 1 ≤ i ∧ i < m.header.pageCount
  nodup : m.free.Nodup
  blank : ∀ i, m.header.pageCount * m.header.pageSize ≤ i → m.bytes i = 0

-- A page that is neither the header nor free.
def Used (m : Image) (i : Nat) : Prop := 1 ≤ i ∧ i < m.header.pageCount ∧ i ∉ m.free

def pageAt (m : Image) (i : Nat) : List UInt8 := pageBytes m.bytes m.header.pageSize i

end Image

-- Contents of the file with the root of `m` and its pages `live`.
structure Version (m : Image) (live : Nat → Prop) (bytes : Bytes) : Prop where
  stored : ∃ h : Header, slice bytes 0 headerEncodedLen = h.encode ∧ h.Fits ∧
    h.pageSize = m.header.pageSize ∧ h.rootPage = m.header.rootPage
  same : ∀ i, live i → pageBytes bytes m.header.pageSize i = m.pageAt i

/-- Between `m` and `m'` the pages `taken` left the free list or were added, in this order; used pages
are as before. -/
structure Kept (m : Image) (taken : List Nat) (m' : Image) : Prop where
  size : m'.header.pageSize = m.header.pageSize
  root : m'.header.rootPage = m.header.rootPage
  count : m.header.pageCount ≤ m'.header.pageCount
  order : m.free ++ List.range' m.header.pageCount (m'.header.pageCount - m.header.pageCount) =
    taken ++ m'.free
  same : ∀ i, m.Used i → m'.pageAt i = m.pageAt i

-- What the disk may hold: only the OS page of the header was flushed.
structure Moved (m : Image) (taken : List Nat) (m' : Image) : Prop extends Kept m taken m' where
  held : ∀ osPage, ∀ bytes ∈ m'.held osPage, bytes ∈ m.held osPage ∨ Version m m.Used bytes
  keeps : ∀ osPage, osPage ≠ 0 → ∀ bytes ∈ m.held osPage, bytes ∈ m'.held osPage

/-- Between `m` and `m'` the file got the root `root` and kept the pages `live`. -/
structure Swapped (m : Image) (root : Nat) (live : Nat → Prop) (m' : Image) : Prop where
  size : m'.header.pageSize = m.header.pageSize
  root : m'.header.rootPage = root
  count : m'.header.pageCount = m.header.pageCount
  same : ∀ i, live i → m'.pageAt i = m.pageAt i
  held : ∀ osPage, ∀ bytes ∈ m'.held osPage, bytes ∈ m.held osPage ∨ Version m' live bytes
  keeps : ∀ osPage, osPage ≠ 0 → ∀ bytes ∈ m.held osPage, bytes ∈ m'.held osPage

variable {m m' m'' : Image} {taken taken' free : List Nat} {i j : Nat}

section Kept

theorem Kept.refl (m : Image) : Kept m [] m where
  size := rfl
  root := rfl
  count := le_rfl
  order := by simp
  same := fun _ _ => rfl

theorem Kept.mem_cases (kept : Kept m taken m') (mem : i ∈ taken ∨ i ∈ m'.free) :
    i ∈ m.free ∨ m.header.pageCount ≤ i ∧ i < m'.header.pageCount := by
  have count := kept.count
  have here := kept.order ▸ List.mem_append.mpr mem
  rcases List.mem_append.mp here with free | fresh
  · exact .inl free
  · have := List.mem_range'_1.mp fresh
    exact .inr (by omega)

theorem Kept.used (kept : Kept m taken m') (used : m.Used i) : m'.Used i := by
  refine ⟨used.1, used.2.1.trans_le kept.count, fun mem => ?_⟩
  rcases kept.mem_cases (.inr mem) with free | ⟨fresh, -⟩
  · exact used.2.2 free
  · exact absurd used.2.1 (by omega)

theorem Kept.trans (first : Kept m taken m') (second : Kept m' taken' m'') :
    Kept m (taken ++ taken') m'' where
  size := second.size.trans first.size
  root := second.root.trans first.root
  count := first.count.trans second.count
  order := by
    obtain ⟨a, eqA⟩ := Nat.exists_eq_add_of_le first.count
    obtain ⟨b, eqB⟩ := Nat.exists_eq_add_of_le second.count
    have order := first.order
    have order' := second.order
    rw [eqB, Nat.add_sub_cancel_left] at order'
    rw [eqA, Nat.add_sub_cancel_left] at order
    rw [show m''.header.pageCount - m.header.pageCount = a + b by omega, ← List.range'_append_1,
      ← eqA, ← List.append_assoc, order, List.append_assoc, order', List.append_assoc]
  same := fun i used => (second.same i (first.used used)).trans (first.same i used)

theorem Kept.nodup (valid : m.Valid) (kept : Kept m taken m') : (taken ++ m'.free).Nodup := by
  rw [← kept.order]
  refine List.nodup_append.mpr ⟨valid.nodup, List.nodup_range', ?_⟩
  intro i free j fresh same
  have := (valid.inside i free).2
  have := List.mem_range'_1.mp fresh
  omega

theorem Kept.mem_taken (valid : m.Valid) (kept : Kept m taken m') (mem : i ∈ taken) :
    m'.Used i ∧ ¬ m.Used i := by
  have apart := (List.nodup_append.mp (kept.nodup valid)).2.2 i mem
  have count := valid.count
  have grown := kept.count
  rcases kept.mem_cases (.inl mem) with free | fresh
  · have inside := valid.inside i free
    exact ⟨⟨inside.1, by omega, fun free' => apart i free' rfl⟩, fun used => used.2.2 free⟩
  · exact ⟨⟨by omega, by omega, fun free' => apart i free' rfl⟩, fun used => absurd used.2.1 (by omega)⟩

theorem Kept.version (kept : Kept m taken m') {bytes : Bytes} (version : Version m' m'.Used bytes) :
    Version m m.Used bytes where
  stored := by
    obtain ⟨h, stored, fits, size, root⟩ := version.stored
    exact ⟨h, stored, fits, size.trans kept.size, root.trans kept.root⟩
  same := fun i used => by
    rw [← kept.size, version.same i (kept.used used), kept.same i used]

theorem Image.Valid.version (valid : m.Valid) (live : Nat → Prop) : Version m live m.bytes :=
  ⟨⟨m.header, valid.stored, valid.fits, rfl, rfl⟩, fun _ _ => rfl⟩

end Kept

section Moved

theorem Moved.refl (m : Image) : Moved m [] m :=
  ⟨.refl m, fun _ _ mem => .inl mem, fun _ _ _ mem => mem⟩

theorem Moved.trans (first : Moved m taken m') (second : Moved m' taken' m'') :
    Moved m (taken ++ taken') m'' where
  toKept := first.toKept.trans second.toKept
  held := by
    intro osPage bytes mem
    rcases second.held osPage bytes mem with before | version
    · exact first.held osPage bytes before
    · exact .inr (first.toKept.version version)
  keeps := fun osPage later bytes mem => second.keeps osPage later bytes (first.keeps osPage later bytes mem)

theorem Kept.stored (valid : m'.Valid) (kept : Kept m taken m')
    (held : ∀ osPage, m'.held osPage = m'.bytes :: m.held osPage) : Moved m taken m' where
  toKept := kept
  held := by
    intro osPage bytes mem
    rw [held] at mem
    rcases List.mem_cons.mp mem with rfl | before
    · exact .inr (kept.version (valid.version _))
    · exact .inl before
  keeps := fun osPage _ bytes mem => by
    rw [held]
    exact List.mem_cons_of_mem _ mem

-- The OS page of the header is flushed.
def Image.flushed (m : Image) : Image :=
  { m with held := fun osPage => if osPage = 0 then [m.bytes] else m.held osPage }

theorem Moved.flushed (valid : m'.Valid) (moved : Moved m taken m') : Moved m taken m'.flushed where
  toKept := { moved.toKept with }
  held := by
    intro osPage bytes mem
    by_cases first : osPage = 0
    · have same : bytes = m'.bytes := by simpa [Image.flushed, first] using mem
      exact .inr (same ▸ moved.toKept.version (valid.version _))
    · exact moved.held osPage bytes (by simpa [Image.flushed, first] using mem)
  keeps := fun osPage later bytes mem => by
    simpa [Image.flushed, later] using moved.keeps osPage later bytes mem

theorem Image.Valid.flushed (valid : m.Valid) : m.flushed.Valid := { valid with }

section Swapped

variable {root root' : Nat} {live live' : Nat → Prop} {bytes : Bytes}

theorem Version.weaken (version : Version m live bytes) (fewer : ∀ i, live' i → live i) :
    Version m live' bytes where
  stored := version.stored
  same := fun i here => version.same i (fewer i here)

theorem Swapped.version (swapped : Swapped m m.header.rootPage live m')
    (version : Version m live bytes) : Version m' live bytes where
  stored := by
    obtain ⟨h, stored, fits, size, root⟩ := version.stored
    exact ⟨h, stored, fits, size.trans swapped.size.symm, root.trans swapped.root.symm⟩
  same := fun i here => by rw [swapped.size, version.same i here, swapped.same i here]

theorem Swapped.refl (m : Image) : Swapped m m.header.rootPage live m where
  size := rfl
  root := rfl
  count := rfl
  same := fun _ _ => rfl
  held := fun _ _ mem => .inl mem
  keeps := fun _ _ _ mem => mem

theorem Swapped.trans (first : Swapped m root live m') (second : Swapped m' root live' m'')
    (fewer : ∀ i, live' i → live i) : Swapped m root live' m'' where
  size := second.size.trans first.size
  root := second.root
  count := second.count.trans first.count
  same := fun i here => (second.same i here).trans (first.same i (fewer i here))
  held := by
    intro osPage bytes mem
    rcases second.held osPage bytes mem with before | version
    · rcases first.held osPage bytes before with start | version
      · exact .inl start
      · have later : Swapped m' m'.header.rootPage live' m'' := first.root.symm ▸ second
        exact .inr (later.version (version.weaken fewer))
    · exact .inr version
  keeps := fun osPage later bytes mem =>
    second.keeps osPage later bytes (first.keeps osPage later bytes mem)

theorem Swapped.fewer (swapped : Swapped m root live m') (fewer : ∀ i, live' i → live i) :
    Swapped m root live' m' where
  size := swapped.size
  root := swapped.root
  count := swapped.count
  same := fun i here => swapped.same i (fewer i here)
  held := fun osPage bytes mem => (swapped.held osPage bytes mem).imp_right (·.weaken fewer)
  keeps := swapped.keeps

theorem Swapped.stored (valid : m'.Valid) (size : m'.header.pageSize = m.header.pageSize)
    (rooted : m'.header.rootPage = root) (count : m'.header.pageCount = m.header.pageCount)
    (same : ∀ i, live i → m'.pageAt i = m.pageAt i)
    (held : ∀ osPage, m'.held osPage = m'.bytes :: m.held osPage) : Swapped m root live m' where
  size := size
  root := rooted
  count := count
  same := same
  held := by
    intro osPage bytes mem
    rw [held] at mem
    rcases List.mem_cons.mp mem with rfl | before
    · exact .inr (valid.version live)
    · exact .inl before
  keeps := fun osPage _ bytes mem => by
    rw [held]
    exact List.mem_cons_of_mem _ mem

theorem Swapped.flushed (valid : m'.Valid) (swapped : Swapped m root live m') :
    Swapped m root live m'.flushed ∧ ∀ bytes ∈ m'.flushed.held 0, Version m'.flushed live bytes := by
  have here : Version m'.flushed live m'.bytes := valid.flushed.version live
  constructor
  · exact
      { swapped with
        held := by
          intro osPage bytes mem
          by_cases first : osPage = 0
          · have same : bytes = m'.bytes := by simpa [Image.flushed, first] using mem
            exact .inr (same ▸ here)
          · rcases swapped.held osPage bytes (by simpa [Image.flushed, first] using mem) with
              before | version
            · exact .inl before
            · exact .inr { version with }
        keeps := fun osPage later bytes mem => by
          simpa [Image.flushed, later] using swapped.keeps osPage later bytes mem }
  · intro bytes mem
    have same : bytes = m'.bytes := by simpa [Image.flushed] using mem
    exact same ▸ here

end Swapped

-- While the pages were taken, the disk could see each of them empty.
def Blank (os : PageSize) (m : Image) (taken : List Nat) : Prop :=
  ∀ i ∈ taken, os.size ≤ i * m.header.pageSize →
    ∃ bytes ∈ m.held (i * m.header.pageSize / os.size), bytes (i * m.header.pageSize) = 0

theorem Blank.later {os : PageSize} (blank : Blank os m taken) (moved : Moved m taken' m') :
    Blank os m' taken := by
  intro i mem large
  rw [moved.size] at large ⊢
  obtain ⟨bytes, held, zero⟩ := blank i mem large
  have beyond : i * m.header.pageSize / os.size ≠ 0 := (Nat.div_pos large os.positive).ne'
  exact ⟨bytes, moved.keeps _ beyond bytes held, zero⟩

theorem Blank.append {os : PageSize} (blank : Blank os m taken) (blank' : Blank os m taken') :
    Blank os m (taken ++ taken') :=
  fun i mem => (List.mem_append.mp mem).elim (blank i) (blank' i)

end Moved

section Bytes

variable {bytes bytes' : Bytes} {size offset : Nat} {data : List UInt8}

theorem pageBytes_patch_other (other : i ≠ j) (fits : data.length ≤ size) :
    pageBytes (patch bytes (i * size) data) size j = pageBytes bytes size j := by
  apply slice_patch_apart
  rcases Nat.lt_or_gt_of_ne other with before | after
  · have : (i + 1) * size ≤ j * size := Nat.mul_le_mul_right _ before
    rw [Nat.add_mul, Nat.one_mul] at this
    omega
  · have : (j + 1) * size ≤ i * size := Nat.mul_le_mul_right _ after
    rw [Nat.add_mul, Nat.one_mul] at this
    omega

theorem pageBytes_patch_same (fits : data.length = size) :
    pageBytes (patch bytes (i * size) data) size i = data := by
  subst fits
  exact slice_patch_same

theorem pageBytes_patch_front (fits : data.length ≤ size) :
    (pageBytes (patch bytes (i * size) data) size i).take data.length = data := by
  have front : ((pageBytes (patch bytes (i * size) data) size i).drop 0).take data.length =
      slice (patch bytes (i * size) data) (i * size) data.length :=
    slice_slice (by rwa [Nat.zero_add])
  rw [List.drop_zero, slice_patch_same] at front
  exact front

theorem le_page (positive : 1 ≤ i) (large : headerEncodedLen ≤ size) : headerEncodedLen ≤ i * size :=
  large.trans (Nat.le_mul_of_pos_left _ positive)

theorem pageBytes_patch_header (positive : 1 ≤ i) (large : headerEncodedLen ≤ size)
    (fits : offset + data.length ≤ headerEncodedLen) :
    pageBytes (patch bytes offset data) size i = pageBytes bytes size i :=
  slice_patch_apart (.inl (fits.trans (le_page positive large)))

theorem header_patch_page (positive : 1 ≤ i) (large : headerEncodedLen ≤ size) :
    slice (patch bytes (i * size) data) 0 headerEncodedLen = slice bytes 0 headerEncodedLen :=
  slice_patch_apart (.inr (by simpa using le_page positive large))

theorem Chain.congr {head : Nat} (same : ∀ i ∈ free, pageBytes bytes' size i = pageBytes bytes size i)
    (chain : Chain bytes size head free) : Chain bytes' size head free := by
  induction free generalizing head with
  | nil => exact chain
  | cons i rest ih =>
    refine ⟨chain.1, ?_⟩
    rw [same i List.mem_cons_self]
    exact ih (fun j mem => same j (List.mem_cons_of_mem _ mem)) chain.2

theorem page_end {count : Nat} (below : i < count) : i * size + size ≤ count * size := by
  have whole : (i + 1) * size ≤ count * size := Nat.mul_le_mul_right _ below
  rwa [Nat.add_mul, Nat.one_mul] at whole

theorem pageBytes_truncate {len : Nat} (inside : i * size + size ≤ len) :
    pageBytes (truncate bytes len) size i = pageBytes bytes size i :=
  slice_congr fun j _ _ => truncate_inside (by omega)

end Bytes

section Changes

variable {bytes : Bytes} {h : Header}

theorem Image.Valid.store (valid : m.Valid) (fits : h.Fits) (size : h.pageSize = m.header.pageSize)
    (count : 1 ≤ h.pageCount) (len : h.pageCount * m.header.pageSize ≤ m.len)
    (chain : Chain m.bytes m.header.pageSize h.freeListHead free)
    (inside : ∀ i ∈ free, 1 ≤ i ∧ i < h.pageCount) (nodup : free.Nodup)
    (blank : ∀ i, h.pageCount * m.header.pageSize ≤ i → m.bytes i = 0) (held : Nat → List Bytes) :
    Image.Valid ⟨patch m.bytes 0 h.encode, m.len, h, free, held⟩ := by
  have encoded : 0 + h.encode.length ≤ headerEncodedLen := by rw [h.length_encode, Nat.zero_add]
  have stored : slice (patch m.bytes 0 h.encode) 0 headerEncodedLen = h.encode := by
    rw [← h.length_encode]
    exact slice_patch_same
  exact
    { stored := stored
      fits := fits
      size := size ▸ valid.size
      count := count
      len := size ▸ len
      chain := size ▸ chain.congr fun i mem => pageBytes_patch_header (inside i mem).1 valid.size encoded
      inside := inside
      nodup := nodup
      blank := fun i beyond => by
        have page : m.header.pageSize ≤ h.pageCount * h.pageSize := by
          rw [size]
          exact Nat.le_mul_of_pos_left _ count
        have large := valid.size
        dsimp only at beyond ⊢
        rw [patch_outside (.inr (by omega))]
        exact blank i (size ▸ beyond) }

theorem Image.Valid.fill {data : List UInt8} (valid : m.Valid) (used : m.Used i)
    (fits : data.length ≤ m.header.pageSize) (held : Nat → List Bytes) :
    Image.Valid { m with bytes := patch m.bytes (i * m.header.pageSize) data, held } where
  stored := (header_patch_page used.1 valid.size).trans valid.stored
  fits := valid.fits
  size := valid.size
  count := valid.count
  len := valid.len
  chain := valid.chain.congr fun j free =>
    pageBytes_patch_other (fun same => used.2.2 (same ▸ free)) fits
  inside := valid.inside
  nodup := valid.nodup
  blank := fun j beyond => by
    have whole : i * m.header.pageSize + m.header.pageSize ≤ m.header.pageCount * m.header.pageSize :=
      page_end used.2.1
    dsimp only at beyond ⊢
    rw [patch_outside (.inr (by omega))]
    exact valid.blank j beyond

end Changes

end Gems.Index
