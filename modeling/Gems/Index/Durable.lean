import Gems.Index.Ownership

set_option autoImplicit false

namespace Gems.Index

open Lib Prog BTree

variable {K V : Type} [LinearOrder K] [FixedCodec K] [FixedCodec V]

section Model

/-- What a machine that stops leaves of the file: each OS page as it was at some time since its last
flush, one page independent of the other. -/
structure Crash (os : PageSize) (p : Pager) (disk : Storage.DiskFile) : Prop where
  len : disk.len = p.fileLen
  page : ∀ osPage, ∃ bytes ∈ p.held osPage, ∀ i, i / os.size = osPage →
    disk.bytes i = if i < p.fileLen then bytes i else 0

def readPage (p : Pager) (pageId : Nat) : List UInt8 :=
  match p.page pageId with
  | .ok buf => buf
  | .error _ => []

-- The next open finds a well-formed tree with the bindings of the map.
def Reopens (os : PageSize) (disk : Storage.DiskFile) (map : K → Option V) : Prop :=
  ∃ t, BTree.openFile os disk = .ok t ∧
    ((t.pager.header.rootPage = 0 ∧ Lists ([] : List (K × V)) map) ∨ ∃ depth entries own,
      Stored (readPage t.pager) depth t.pager.header.rootPage none none entries own ∧ Lists entries map)

-- Wherever the machine stops inside the operation, the file holds the map from before or from after.
def CrashAtomic {A : Type} (os : PageSize) (m : Gems.Prog BTree A) (t : BTree)
    (before after : K → Option V) : Prop :=
  ∀ writes disk, Crash os (m.leave writes t).pager disk → Reopens os disk before ∨ Reopens os disk after

end Model

variable {os : PageSize} {m m' m1 : Image} {p : Pager} {map map' : K → Option V} {h : Header}
  {own own' lost lost' free taken old : List Nat} {depth depth' root osPage : Nat}
  {disk : Storage.DiskFile} {bytes : Bytes} {live live' : Nat → Prop}

section Seen

-- The disk shows the root `root` and the pages `own` of `m`.
structure Seen (m : Image) (root : Nat) (own : List Nat) (disk : Storage.DiskFile) : Prop where
  stored : ∃ h : Header, slice disk.bytes 0 headerEncodedLen = h.encode ∧ h.Fits ∧
    h.pageSize = m.header.pageSize ∧ h.rootPage = root
  first : headerEncodedLen ≤ disk.len
  pages : ∀ i ∈ own, i * m.header.pageSize + m.header.pageSize ≤ disk.len ∧
    pageBytes disk.bytes m.header.pageSize i = m.pageAt i

theorem open_stored (os : PageSize) (stored : slice disk.bytes 0 headerEncodedLen = h.encode)
    (fits : h.Fits) (first : headerEncodedLen ≤ disk.len) :
    BTree.openFile os disk = .ok ⟨⟨disk.bytes, disk.len, roundUpToOsPage os disk.len, h,
      fun _ => [disk.bytes]⟩, []⟩ := by
  have some : disk.len ≠ 0 := by
    rintro none
    rw [none] at first
    exact absurd first (by decide)
  have decoded : Header.decode h.encode = .ok h := Header.decode_encode fits
  simp only [BTree.openFile, Pager.openFile, some, if_false, stored]
  rw [decoded]
  rfl

theorem readPage_mapped (h : Header) {i : Nat} (os : PageSize)
    (inside : i * h.pageSize + h.pageSize ≤ disk.len) (held : Nat → List Bytes) :
    readPage ⟨disk.bytes, disk.len, roundUpToOsPage os disk.len, h, held⟩ i =
      pageBytes disk.bytes h.pageSize i := by
  have mapped := le_roundUpToOsPage os disk.len
  rw [readPage, Pager.page, if_neg (by dsimp only [Pager.fileOffset]; omega)]
  rfl

theorem Seen.reopens (seen : Seen m root own disk)
    (tree : (root = 0 ∧ Lists ([] : List (K × V)) map) ∨
      ∃ entries, Stored m.pageAt depth root none none entries own ∧ Lists entries map) :
    Reopens os disk map := by
  obtain ⟨h, stored, fits, size, rfl⟩ := seen.stored
  refine ⟨_, open_stored os stored fits seen.first, ?_⟩
  rcases tree with empty | ⟨entries, tree, lists⟩
  · exact .inl empty
  · refine .inr ⟨depth, entries, own, tree.congr (fun i mem => ?_) le_rfl, lists⟩
    obtain ⟨inside, same⟩ := seen.pages i mem
    rw [← size] at inside same
    exact (readPage_mapped h os inside _).trans same

theorem header_short (os : PageSize) : headerEncodedLen ≤ os.size := by
  have page : 4096 ≤ os.size := Nat.le_of_dvd os.positive os.dvd_4096
  have short : headerEncodedLen ≤ 4096 := by decide
  omega

-- Contents that show the pages `live` of `m` as far as they lie in an OS page.
def Shows (os : PageSize) (m : Image) (live : Nat → Prop) (osPage : Nat) (bytes : Bytes) : Prop :=
  ∀ i, live i → ∀ j, i * m.header.pageSize ≤ j → j < i * m.header.pageSize + m.header.pageSize →
    j / os.size = osPage → bytes j = m.bytes j

def Rooted (m : Image) (root : Nat) (bytes : Bytes) : Prop :=
  ∃ h : Header, slice bytes 0 headerEncodedLen = h.encode ∧ h.Fits ∧
    h.pageSize = m.header.pageSize ∧ h.rootPage = root

theorem Version.shows (version : Version m live bytes) : Shows os m live osPage bytes :=
  fun i here _ after before _ => eq_of_slice_eq (version.same i here) after before

theorem Shows.fewer (shows : Shows os m live osPage bytes) (fewer : ∀ i, live' i → live i) :
    Shows os m live' osPage bytes :=
  fun i here => shows i (fewer i here)

theorem Shows.moved (shows : Shows os m live osPage bytes)
    (size : m'.header.pageSize = m.header.pageSize) (same : ∀ i, live i → m'.pageAt i = m.pageAt i) :
    Shows os m' live osPage bytes := by
  intro i here j after before place
  rw [size] at after before
  have page := same i here
  rw [Image.pageAt, Image.pageAt, size] at page
  exact (shows i here j after before place).trans (eq_of_slice_eq page after before).symm

-- The disk, put together from one content for each OS page.
theorem Crash.seen (len : disk.len = p.fileLen) {pick : Nat → Bytes}
    (same : ∀ osPage i, i / os.size = osPage →
      disk.bytes i = if i < p.fileLen then pick osPage i else 0)
    (stored : Rooted m root (pick 0)) (first : headerEncodedLen ≤ p.fileLen)
    (inside : ∀ i ∈ own, i * m.header.pageSize + m.header.pageSize ≤ p.fileLen)
    (shows : ∀ osPage, Shows os m (· ∈ own) osPage (pick osPage)) : Seen m root own disk where
  stored := by
    obtain ⟨h, stored, rest⟩ := stored
    have short := header_short os
    refine ⟨h, (slice_congr fun i _ before => ?_).trans stored, rest⟩
    rw [same 0 i (Nat.div_eq_of_lt (by omega)), if_pos (by omega)]
  first := len ▸ first
  pages := by
    intro i mem
    have page := inside i mem
    refine ⟨len ▸ page, slice_congr fun j after before => ?_⟩
    rw [same _ j rfl, if_pos (by omega)]
    exact shows _ i mem j after before rfl

end Seen

section Durable

/-- Whatever a machine that stops leaves of the file shows its tree. -/
structure Durable (os : PageSize) (m : Image) (own : List Nat) : Prop where
  rooted : ∀ bytes ∈ m.held 0, Rooted m m.header.rootPage bytes
  shows : ∀ osPage, ∀ bytes ∈ m.held osPage, Shows os m (· ∈ own) osPage bytes

-- Contents from before an update: they were there at its start, or no page of the tree moved since.
def Old (m : Image) (osPage : Nat) (bytes : Bytes) : Prop :=
  bytes ∈ m.held osPage ∨ Version m m.Used bytes

theorem Old.shows (durable : Durable os m own) (used : ∀ i ∈ own, m.Used i) (old : Old m osPage bytes) :
    Shows os m (· ∈ own) osPage bytes :=
  old.elim (durable.shows osPage bytes) fun version => version.shows.fewer used

theorem Old.rooted (durable : Durable os m own) (old : Old m 0 bytes) :
    Rooted m m.header.rootPage bytes :=
  old.elim (durable.rooted bytes) Version.stored

theorem inside_grown (valid : m.Valid) (valid' : m'.Valid)
    (size : m'.header.pageSize = m.header.pageSize)
    (count : m.header.pageCount ≤ m'.header.pageCount) :
    headerEncodedLen ≤ m'.len ∧
      ∀ i < m'.header.pageCount, i * m.header.pageSize + m.header.pageSize ≤ m'.len := by
  have len := valid'.len
  rw [size] at len
  constructor
  · exact valid.size.trans ((Nat.le_mul_of_pos_left _ (valid.count.trans count)).trans len)
  · exact fun i below => (page_end below).trans len

theorem old_reopens (maps : Maps m map depth own lost) (valid : (p.file h free).Valid)
    (size : h.pageSize = m.header.pageSize) (count : m.header.pageCount ≤ h.pageCount)
    {pick : Nat → Bytes} (len : disk.len = p.fileLen)
    (same : ∀ osPage i, i / os.size = osPage →
      disk.bytes i = if i < p.fileLen then pick osPage i else 0)
    (rooted : Rooted m m.header.rootPage (pick 0))
    (shows : ∀ osPage, Shows os m (· ∈ own) osPage (pick osPage)) : Reopens os disk map := by
  obtain ⟨first, inside⟩ := inside_grown maps.valid valid size count
  have seen : Seen m m.header.rootPage own disk :=
    Crash.seen len same rooted first
      (fun i mem => inside i ((maps.used i mem).2.1.trans_le count)) shows
  exact seen.reopens (maps.tree.imp_left fun ⟨root, _, lists⟩ => ⟨root, lists⟩)

theorem Moved.reopens (maps : Maps m map depth own lost) (durable : Durable os m own)
    (valid : (p.file h free).Valid) (moved : Moved m taken (p.file h free))
    (crash : Crash os p disk) : Reopens os disk map := by
  choose pick held same using crash.page
  have old (osPage : Nat) : Old m osPage (pick osPage) := moved.held osPage _ (held osPage)
  exact old_reopens maps valid moved.size moved.count crash.len same ((old 0).rooted durable)
    fun osPage => (old osPage).shows durable maps.used

theorem Committed.shows {c : Image} (maps : Maps m map depth own lost) (durable : Durable os m own)
    (moved : Moved m taken m1) (pages : own' ⊆ own ++ taken)
    (beside : ∀ i ∈ taken, (i + 1) * m.header.pageSize ≤ os.size)
    (committed : Committed m1 root own' old c lost') (later : osPage ≠ 0) (mem : bytes ∈ c.held osPage) :
    Shows os c (· ∈ own') osPage bytes := by
  have swapped := committed.swapped
  have size : c.header.pageSize = m.header.pageSize := swapped.size.trans moved.size
  rcases swapped.held osPage bytes mem with before | version
  · intro i here j after below place
    rw [size] at after below
    have known : i ∈ own := by
      refine (List.mem_append.mp (pages here)).resolve_right fun fresh => later ?_
      have inside := beside i fresh
      rw [Nat.add_mul, Nat.one_mul] at inside
      rw [← place]
      exact Nat.div_eq_of_lt (by omega)
    have shows := Old.shows durable maps.used (moved.held osPage bytes before)
    have page : c.pageAt i = m.pageAt i := (swapped.same i here).trans (moved.same i (maps.used i known))
    rw [Image.pageAt, Image.pageAt, size] at page
    exact (shows i known j after below place).trans (eq_of_slice_eq page after below).symm
  · exact version.shows

theorem Committed.reopens (maps : Maps m map depth own lost) (durable : Durable os m own)
    (moved : Moved m taken m1) (pages : own' ⊆ own ++ taken) (used : ∀ i ∈ own', m1.Used i)
    (beside : ∀ i ∈ taken, (i + 1) * m.header.pageSize ≤ os.size)
    (committed : Committed m1 root own' old (p.file h free) lost')
    (maps' : Maps (p.file h free) map' depth' own' (lost' ++ lost)) (crash : Crash os p disk) :
    Reopens os disk map ∨ Reopens os disk map' := by
  choose pick held same using crash.page
  have swapped := committed.swapped
  have size : h.pageSize = m.header.pageSize := swapped.size.trans moved.size
  have count : m.header.pageCount ≤ h.pageCount := moved.count.trans swapped.count.ge
  -- The header on disk decides which tree is found.
  have new (version : Version (p.file h free) (· ∈ own') (pick 0)) : Reopens os disk map' := by
    obtain ⟨first, inside⟩ := inside_grown committed.valid committed.valid rfl le_rfl
    have shows (osPage : Nat) : Shows os (p.file h free) (· ∈ own') osPage (pick osPage) := by
      by_cases first : osPage = 0
      · subst first
        exact version.shows
      · exact committed.shows maps durable moved pages beside first (held osPage)
    have seen : Seen (p.file h free) h.rootPage own' disk :=
      Crash.seen crash.len same version.stored first
        (fun i mem => inside i (maps'.used i mem).2.1) shows
    exact seen.reopens (maps'.tree.imp_left fun ⟨root, _, lists⟩ => ⟨root, lists⟩)
  rcases committed.first with whole | flushed
  · rcases whole.held 0 _ (held 0) with before | version
    · refine .inl (old_reopens maps committed.valid size count crash.len same
        (Old.rooted durable (moved.held 0 _ before)) fun osPage => ?_)
      rcases whole.held osPage _ (held osPage) with before | version
      · exact Old.shows durable maps.used (moved.held osPage _ before)
      · -- a flush of the new root that left the pages of the old tree alone
        have kept : ∀ i ∈ own, m1.Used i := fun i mem => moved.toKept.used (maps.used i mem)
        have shows : Shows os (p.file h free) (· ∈ own) osPage (pick osPage) :=
          version.shows.fewer kept
        refine shows.moved size.symm fun i mem => ?_
        rw [whole.same i (kept i mem), moved.same i (maps.used i mem)]
    · exact .inr (new (version.weaken used))
  · exact .inr (new (flushed _ (held 0)))

end Durable

end Gems.Index
