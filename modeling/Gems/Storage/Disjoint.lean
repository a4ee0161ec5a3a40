import Gems.Storage.Slots

set_option autoImplicit false

namespace Gems.Storage

open Lib Prog

inductive Op where
  | allocate (size : Nat)
  | free (p : SlotPointer)
  | write (p : SlotPointer) (data : List UInt8)
  | reopen

/-- The user of one extent file: the slots it was given and has not freed yet, the latest first. -/
structure Client where
  manager : ExtentManager
  live : List SlotPointer

namespace Client

def create (fileId : UInt32) : Client := { manager := .create fileId, live := [] }

-- A call that fails leaves what it did; only live pointers are freed or written through.
def step (page : PageSize) (t : Client) : Op → Client
  | .allocate size =>
    match (ExtentManager.allocate page size).run t.manager with
    | (.ok p, manager) => { manager, live := p :: t.live }
    | (.error _, manager) => { t with manager }
  | .free p =>
    if p ∈ t.live then
      match (ExtentManager.free p).run t.manager with
      | (.ok (), manager) => { manager, live := t.live.erase p }
      | (.error _, manager) => { t with manager }
    else t
  | .write p data =>
    if p ∈ t.live then { t with manager := ((ExtentManager.writeSlot p data).run t.manager).2 }
    else t
  | .reopen =>
    match ExtentManager.openFile page t.manager.file.onDisk t.manager.fileId true with
    | .ok manager => { t with manager }
    | .error _ => t

def exec (page : PageSize) (t : Client) (ops : List Op) : Client := ops.foldl (step page) t

end Client

-- Extents are only added, and the file only reopened, while it is level.
def Op.Clean (t : Client) : Op → Prop
  | .allocate size => ∀ c, BlockClass.forSize size = .ok c → Full t.manager c → Level t.manager
  | .free _ | .write _ _ => True
  | .reopen => Level t.manager

def Clean (page : PageSize) (t : Client) : List Op → Prop
  | [] => True
  | op :: rest => op.Clean t ∧ Clean page (t.step page op) rest

/-- What the users of a store rely on. -/
structure Sound (t : Client) : Prop where
  disjoint : t.live.Pairwise fun p q => ∀ base c base' c',
    t.manager.slotOffset p = .ok (base, c) → t.manager.slotOffset q = .ok (base', c') →
      base + c.blockSize ≤ base' ∨ base' + c'.blockSize ≤ base
  placed : ∀ p ∈ t.live, ∃ base c, t.manager.slotOffset p = .ok (base, c) ∧
    base + c.blockSize ≤ t.manager.file.fileLen ∧
    (∀ i, base + c.blockSize ≤ i * extentSize ∨ i * extentSize + dataOffset ≤ base) ∧
    (t.manager.file.onDisk.bytes (p.extentIndex.toNat * extentSize + 6)).toNat = c.index
  isolated : ∀ p ∈ t.live, ∀ q ∈ t.live, p ≠ q → ∀ data len,
    ((ExtentManager.writeSlot p data).run t.manager).2.read q len = t.manager.read q len

theorem Client.exec_append {page : PageSize} {t : Client} {ops later : List Op} :
    t.exec page (ops ++ later) = (t.exec page ops).exec page later :=
  List.foldl_append

structure Client.Fine (page : PageSize) (t : Client) : Prop where
  held : Held page t.manager {p | p ∈ t.live}
  nodup : t.live.Nodup
  few : t.manager.extents.length ≤ 4114

variable {page : PageSize} {t : Client}

theorem Client.Fine.sound (fine : t.Fine page) : Sound t where
  disjoint := by
    refine fine.nodup.imp_of_mem ?_
    intro p q memP memQ other base c base' c' offset offset'
    obtain ⟨d, lives⟩ := fine.held.laid.live p memP
    obtain ⟨d', lives'⟩ := fine.held.laid.live q memQ
    obtain ⟨rfl, rfl⟩ := Prod.mk.inj (Except.ok.inj (lives.slotOffset.symm.trans offset))
    obtain ⟨rfl, rfl⟩ := Prod.mk.inj (Except.ok.inj (lives'.slotOffset.symm.trans offset'))
    exact lives.apart lives' other
  placed := by
    intro p mem
    obtain ⟨c, lives⟩ := fine.held.laid.live p mem
    have whole : (p.extentIndex.toNat + 1) * extentSize ≤ t.manager.extents.length * extentSize :=
      Nat.mul_le_mul_right _ lives.inside
    refine ⟨slotBase p c, c, lives.slotOffset,
      lives.range.2.trans (whole.trans fine.held.laid.extents_le), lives.off_headers, ?_⟩
    rw [ExtentFile.onDisk, fine.held.laid.truncate_eq, lives.recorded]
  isolated := by
    intro p memP q memQ other data len
    obtain ⟨c, lives⟩ := fine.held.laid.live p memP
    obtain ⟨d, lives'⟩ := fine.held.laid.live q memQ
    have ran := (fine.held.writeSlot lives data).run
    rcases made : (ExtentManager.writeSlot p data).run t.manager with ⟨result, s⟩
    rw [made] at ran
    cases result with
    | error e =>
      obtain ⟨⟨rfl, -⟩ | ⟨refused, -⟩, -, going⟩ := ran
      · rfl
      · exact absurd refused going
    | ok a =>
      obtain ⟨fits, held, -, rfl⟩ := ran
      have apart := lives.apart lives' other
      obtain ⟨d', lives''⟩ := held.laid.live q memQ
      obtain rfl : d' = d := BlockClass.ext_index (by rw [← lives''.kind, lives'.kind])
      by_cases long : d'.blockSize < len
      · exact (lives''.read_long long).trans (lives'.read_long long).symm
      · rw [held.read lives'' (by omega), fine.held.read lives' (by omega)]
        exact congrArg Except.ok (slice_patch_apart (by omega))

theorem Client.Fine.create (fileId : UInt32) : (Client.create fileId).Fine page where
  held :=
    { laid :=
        { len := rfl
          blank := fun _ _ => rfl
          classes := fun _ below => absurd below (Nat.not_lt_zero _)
          live := fun _ mem => absurd mem List.not_mem_nil }
      extents := fun _ _ known => absurd known (by simp [Client.create, ExtentManager.create])
      mapped := (Nat.zero_mul _).symm
      writable := rfl }
  nodup := .nil
  few := by simp [Client.create, ExtentManager.create]

theorem Client.Fine.step (fine : t.Fine page) (op : Op) (clean : op.Clean t) :
    (t.step page op).Fine page := by
  cases op with
  | allocate size =>
    cases class_ : BlockClass.forSize size with
    | error error =>
      have ran := (allocate_error page t.manager class_).run
      rcases made : (ExtentManager.allocate page size).run t.manager with ⟨result, s⟩
      rw [made] at ran
      cases result with
      | ok p => exact ran.elim
      | error e =>
        obtain ⟨⟨-, rfl⟩, -⟩ := ran
        simpa only [Client.step, made] using fine
    | ok c =>
      have allocated : SpecAt .none (ExtentManager.allocate page size) t.manager _ _ :=
        fine.held.allocate fine.few class_ (clean c class_) fun _ => by simp
      have ran := allocated.run
      rcases made : (ExtentManager.allocate page size).run t.manager with ⟨result, s⟩
      rw [made] at ran
      cases result with
      | error e => exact absurd ran.1.outside (not_or.mpr ran.2)
      | ok p =>
        simp only [Client.step, made]
        refine ⟨ran.held.subset fun q mem => ?_, fine.nodup.cons ran.fresh, ran.few⟩
        exact List.mem_cons.mp mem
  | free p =>
    by_cases mem : p ∈ t.live
    · have ran := (fine.held.free mem).run
      rcases made : (ExtentManager.free p).run t.manager with ⟨result, s⟩
      rw [made] at ran
      cases result with
      | error e =>
        obtain ⟨⟨stop, -⟩ | ⟨refused, -⟩, going, going'⟩ := ran
        · exact absurd stop going
        · exact absurd refused going'
      | ok a =>
        simp only [Client.step, mem, if_true, made]
        refine ⟨ran.held.subset fun q rest => ?_, fine.nodup.erase p, ran.extents ▸ fine.few⟩
        exact ⟨List.mem_of_mem_erase rest, fun eq => fine.nodup.not_mem_erase (eq ▸ rest)⟩
    · simpa only [Client.step, mem, if_false] using fine
  | write p data =>
    by_cases mem : p ∈ t.live
    · obtain ⟨c, lives⟩ := fine.held.laid.live p mem
      have ran := (fine.held.writeSlot lives data).run
      rcases made : (ExtentManager.writeSlot p data).run t.manager with ⟨result, s⟩
      rw [made] at ran
      simp only [Client.step, mem, if_true, made]
      cases result with
      | error e =>
        obtain ⟨⟨rfl, -⟩ | ⟨refused, -⟩, -, going⟩ := ran
        · exact fine
        · exact absurd refused going
      | ok a =>
        obtain ⟨-, held, same, -⟩ := ran
        refine ⟨held, fine.nodup, ?_⟩
        rw [same]
        exact fine.few
    · simpa only [Client.step, mem, if_false] using fine
  | reopen =>
    have level : t.manager.extents.length * stride page / extentSize = t.manager.extents.length := by
      rw [← fine.held.mapped]
      exact clean
    obtain ⟨s, made, held, count, -, -⟩ := fine.held.onDisk.openFile level
    simp only [Client.step, made]
    exact ⟨held, fine.nodup, count ▸ fine.few⟩

theorem Client.Fine.exec (fine : t.Fine page) {ops : List Op} (clean : Clean page t ops) :
    (t.exec page ops).Fine page := by
  induction ops generalizing t with
  | nil => exact fine
  | cons op rest ih => exact ih (fine.step op clean.1) clean.2

section Drift

-- With 4 KiB pages the mapping is a whole extent ahead after 4114 extents.
def fourKiB : PageSize := { size := 4096, power := ⟨12, le_rfl, rfl⟩ }

def largest : BlockClass := ⟨15, by decide⟩

theorem forSize_max : BlockClass.forSize maxBlockSize = .ok largest := rfl

theorem largest_slots : largest.slotsPerExtent = 1 := rfl

theorem stride_fourKiB : stride fourKiB = 16785408 := by
  rw [stride, roundUpToOsPage_eq, extentSize_eq]
  rfl

-- `n` extents of one slot each, all in use.
structure Tall (n : Nat) (t : Client) : Prop where
  fine : t.Fine fourKiB
  extents : t.manager.extents = List.replicate n largest
  used : ∀ i < n, Bitmap.get t.manager.file.bytes (i * extentSize + extentHeaderLen) 0 = true

variable {n : Nat} {s : ExtentManager} {idx slot : UInt32}

theorem firstFree_one {bytes : Bytes} {base : Nat} (used : Bitmap.get bytes base 0 = true) :
    Bitmap.firstFree bytes base largest.slotsPerExtent = none := by
  rw [largest_slots]
  simp [Bitmap.firstFree, used]

theorem Claimed.not_full {d : BlockClass} {s' : ExtentManager} (claimed : Claimed s idx slot d s') :
    Bitmap.firstFree s.file.bytes (idx.toNat * extentSize + extentHeaderLen) d.slotsPerExtent ≠
      none := by
  intro none
  rw [Bitmap.firstFree, List.find?_eq_none] at none
  have used := none slot.toNat (List.mem_range.mpr claimed.below)
  rw [claimed.free] at used
  exact used rfl

theorem Grown.used {k i : Nat} {s' : ExtentManager} (grown : Grown s k s') (below : i < k)
    (used : Bitmap.get s.file.bytes (i * extentSize + extentHeaderLen) 0 = true) :
    Bitmap.get s'.file.bytes (i * extentSize + extentHeaderLen) 0 = true := by
  have header : extentHeaderLen < extentSize := by
    rw [extentSize_eq]
    decide
  rw [Bitmap.get, Nat.zero_div, Nat.add_zero] at used ⊢
  rwa [grown.same_below below header]

theorem Tall.full (tall : Tall n t) : Full t.manager largest := by
  intro idx mem
  have few := tall.fine.few
  obtain ⟨inside, -⟩ := List.getElem?_eq_some_iff.mp (extents_of_candidate (by omega) mem)
  rw [tall.extents, List.length_replicate] at inside
  exact firstFree_one (tall.used _ inside)

theorem Tall.mapped (tall : Tall n t) : t.manager.file.mappedLen = n * 16785408 := by
  rw [tall.fine.held.mapped, tall.extents, List.length_replicate, stride_fourKiB]

theorem Tall.level (tall : Tall n t) (small : n < 4114) : Level t.manager := by
  rw [Level, tall.mapped, tall.extents, List.length_replicate, extentSize_eq]
  omega

theorem Tall.step (tall : Tall n t) (small : n < 4114) :
    Tall (n + 1) (t.step fourKiB (.allocate maxBlockSize)) := by
  have level := tall.level small
  have fine := tall.fine.step (.allocate maxBlockSize) fun _ _ _ => level
  have few := tall.fine.few
  have count : t.manager.extents.length = n := by rw [tall.extents, List.length_replicate]
  have inside := fun idx (mem : idx ∈ t.manager.candidateIndices largest) =>
    tall.fine.held.inside (by omega) mem
  obtain ⟨p, s, made, -, -, claimed | ⟨-, -, -, added⟩⟩ := allocate_run fourKiB forSize_max
    tall.fine.held.writable inside fun _ => tall.fine.held.room (by omega) level
  · exact absurd (tall.full _ claimed.candidate) claimed.not_full
  rw [count] at added
  simp only [Client.step, made] at fine ⊢
  refine ⟨fine, ?_, ?_⟩
  · rw [added.extents, tall.extents, List.replicate_succ']
  intro i below
  rcases Nat.lt_or_eq_of_le (Nat.le_of_lt_succ below) with old | rfl
  · exact added.toGrown.used old (tall.used i old)
  · exact added.marked

theorem tall_run : n ≤ 4114 →
    Tall n ((Client.create 0).exec fourKiB (List.replicate n (.allocate maxBlockSize))) := by
  induction n with
  | zero => exact fun _ => ⟨.create 0, rfl, fun _ below => absurd below (Nat.not_lt_zero _)⟩
  | succ n ih =>
    intro small
    rw [List.replicate_succ', Client.exec_append]
    exact (ih (by omega)).step (by omega)

/-- One more extent went behind a gap: extent 4114 is listed, but was never made. -/
structure Skipped (s : ExtentManager) : Prop where
  extents : s.extents = List.replicate 4115 largest
  len : s.file.fileLen = 4114 * 16785408 + extentSize
  mapped : s.file.mappedLen = 4115 * 16785408
  writable : s.file.writable = true
  used : ∀ i < 4114, Bitmap.get s.file.bytes (i * extentSize + extentHeaderLen) 0 = true
  gap : ∀ i, 4114 * extentSize ≤ i → i < 4115 * extentSize → s.file.bytes i = 0
  class_ : ∀ i < 4116, i ≠ 4114 → (s.file.bytes (i * extentSize + 6)).toNat = 15

theorem Tall.skips (tall : Tall 4114 t) :
    ∃ p s, (ExtentManager.allocate fourKiB maxBlockSize).run t.manager = (.ok p, s) ∧
      s.fileId = t.manager.fileId ∧ Skipped s := by
  have held := tall.fine.held
  have count : t.manager.extents.length = 4114 := by rw [tall.extents, List.length_replicate]
  have blank (i : Nat) (out : 4114 * extentSize ≤ i) : t.manager.file.bytes i = 0 :=
    held.laid.blank i (by rwa [count])
  have room : Room t.manager 4115 :=
    { index := by
        rw [tall.mapped, extentSize_eq]
      small := by decide
      blank := fun i out => blank i (by omega)
      tail := fun i out => held.laid.blank i (held.laid.extents_le.trans out)
      writable := held.writable }
  have inside := fun idx (mem : idx ∈ t.manager.candidateIndices largest) =>
    held.inside (by omega) mem
  obtain ⟨p, s, made, -, -, claimed | ⟨-, -, -, added⟩⟩ := allocate_run fourKiB forSize_max
    held.writable inside fun _ => room
  · exact absurd (tall.full _ claimed.candidate) claimed.not_full
  refine ⟨p, s, made, added.fileId, ?_⟩
  exact
    { extents := by
        rw [added.extents, tall.extents]
        exact List.replicate_succ'.symm
      len := by rw [added.len, tall.mapped]
      mapped := by rw [added.mapped, tall.mapped, ← stride_fourKiB, roundUpToOsPage_stride]
      writable := added.writable
      used := fun i below => added.toGrown.used (by omega) (tall.used i below)
      gap := fun i lo hi => by rw [added.same i (.inl hi), blank i lo]
      class_ := by
        intro i below other
        rcases Nat.lt_or_ge i 4114 with old | new
        · have header : 6 < extentSize := by
            rw [extentSize_eq]
            decide
          rw [added.same_below (by omega) header]
          apply held.extents i largest
          rw [tall.extents, List.getElem?_replicate, if_pos old]
        · obtain rfl : i = 4115 := by omega
          exact added.recorded }

theorem Skipped.claims {s : ExtentManager} (skipped : Skipped s) :
    ∃ p, (ExtentManager.allocate fourKiB maxBlockSize).run s =
        (.ok p, withMark s (4114 * extentSize + extentHeaderLen) 0 true) ∧
      p.fileId = s.fileId ∧ p.extentIndex.toNat = 4114 ∧ p.slotIndex.toNat = 0 ∧
      p.blockClass.toNat = largest.index := by
  have count : s.extents.length = 4115 := by rw [skipped.extents, List.length_replicate]
  have index := toNat_ofNat32 (k := 4114) (by decide)
  have known {idx : UInt32} (mem : idx ∈ s.candidateIndices largest) : idx.toNat < 4115 := by
    obtain ⟨inside, -⟩ := List.getElem?_eq_some_iff.mp (extents_of_candidate (by omega) mem)
    rwa [count] at inside
  have notFull : ¬ Full s largest := by
    intro full
    have none := full (UInt32.ofNat 4114) (mem_candidateIndices.mpr ⟨4114, by
      rw [skipped.extents, List.getElem?_replicate, if_pos (by decide)], rfl⟩)
    have header : extentHeaderLen < extentSize := by
      rw [extentSize_eq]
      decide
    rw [index, Bitmap.firstFree_blank largest.slotsPerExtent_pos (skipped.gap _ (by omega) (by omega))]
      at none
    cases none
  obtain ⟨p, s', made, file, kind, claimed | ⟨full, -⟩⟩ := allocate_run fourKiB forSize_max
    skipped.writable (fun idx mem => (header_inside (known mem)).trans (by
      rw [skipped.mapped, extentSize_eq]
      decide)) fun full => (absurd full notFull : Room s 0)
  · have zero : p.slotIndex.toNat = 0 := by
      have := claimed.below
      rw [largest_slots] at this
      omega
    have last : p.extentIndex.toNat = 4114 := by
      have below := known claimed.candidate
      have free := claimed.free
      rw [zero] at free
      by_contra other
      rw [skipped.used _ (by omega)] at free
      cases free
    refine ⟨p, ?_, file, last, zero, by rw [kind, largest.toNat_index]⟩
    rw [made, claimed.state, last, zero]
  · exact absurd full notFull

def smallest : BlockClass := ⟨0, by decide⟩

theorem forSize_min : BlockClass.forSize minBlockSize = .ok smallest := rfl

-- The skipped extent with its first slot in use, as the next open finds it.
structure Reread (s : ExtentManager) : Prop where
  mapped : s.file.mappedLen = 4115 * 16785408
  writable : s.file.writable = true
  count : s.extents.length = 4116
  smallest_iff : ∀ i : Nat, s.extents[i]? = some smallest ↔ i = 4114
  marked : Bitmap.get s.file.bytes (4114 * extentSize + extentHeaderLen) 0 = true
  free : Bitmap.get s.file.bytes (4114 * extentSize + extentHeaderLen) 1 = false

theorem Skipped.reopens {s : ExtentManager} (skipped : Skipped s) :
    ∃ s', ExtentManager.openFile fourKiB
        (withMark s (4114 * extentSize + extentHeaderLen) 0 true).file.onDisk s.fileId true = .ok s' ∧
      s'.fileId = s.fileId ∧ Reread s' := by
  generalize base : 4114 * extentSize + extentHeaderLen = at_
  generalize kept : (withMark s at_ 0 true).file.onDisk = disk
  have header := extentHeaderLen_eq
  have len : disk.len = 4114 * stride fourKiB + extentSize := by
    rw [← kept, ExtentFile.onDisk, withMark_fileLen, skipped.len, stride_fourKiB]
  have bytes (i : Nat) (inside : i < disk.len) :
      disk.bytes i = Bitmap.set s.file.bytes at_ 0 true i := by
    rw [← kept, ExtentFile.onDisk, withMark_bytes]
    rw [← kept] at inside
    exact truncate_inside inside
  have class_ (i : Nat) (below : i < 4116) :
      disk.bytes (i * extentSize + 6) = s.file.bytes (i * extentSize + 6) := by
    have inside : i * extentSize + 6 < disk.len := by
      rw [len, stride_fourKiB, extentSize_eq]
      omega
    have other : i * extentSize + 6 ≠ at_ := by
      rw [← base, header, extentSize_eq]
      omega
    rw [bytes _ inside]
    exact Bitmap.set_outside (by rwa [Nat.zero_div, Nat.add_zero])
  have gap (j : Nat) (small : j < 4112) : s.file.bytes (4114 * extentSize + j) = 0 := by
    apply skipped.gap
    · omega
    · rw [extentSize_eq]
      omega
  have number (i : Nat) (below : i < 4116) :
      (disk.bytes (i * extentSize + 6)).toNat = if i = 4114 then 0 else 15 := by
    rw [class_ i below]
    split
    next here =>
      rw [here, gap 6 (by decide)]
      rfl
    next there => exact skipped.class_ i below there
  have bit_ (j : Nat) (small : j < 8) :
      Bitmap.get disk.bytes at_ j = Bitmap.get (Bitmap.set s.file.bytes at_ 0 true) at_ j := by
    have inside : at_ < disk.len := by
      rw [← base, len, stride_fourKiB, header, extentSize_eq]
      decide
    rw [Bitmap.get, Bitmap.get, Nat.div_eq_of_lt small, Nat.add_zero, bytes at_ inside]
  have mapped : (ExtentFile.openFile fourKiB disk true).mappedLen = 4115 * 16785408 := by
    have large := extentSize_pos
    rw [ExtentFile.openFile]
    dsimp only
    rw [if_neg (by omega), len, roundUpToOsPage_stride, stride_fourKiB]
  obtain ⟨extents, made, each⟩ := mapM_ok (l := List.range 4116)
    (f := fun i => BlockClass.fromIndex (disk.bytes (i * extentSize + 6)).toNat) (by
      intro i mem
      refine ⟨_, dif_pos ?_⟩
      rw [number i (List.mem_range.mp mem)]
      split <;> decide)
  have count : extents.length = 4116 := by rw [← each.length_eq, List.length_range]
  refine ⟨{ file := ExtentFile.openFile fourKiB disk true, fileId := s.fileId, extents }, ?_, rfl, ?_⟩
  · rw [ExtentManager.openFile, mapped, extentSize_eq]
    simp only [bind, Except.bind, pure, Except.pure]
    rw [extentSize_eq] at made
    rw [show (ExtentFile.openFile fourKiB disk true).bytes = disk.bytes from rfl,
      show 4115 * 16785408 / 16781328 = 4116 by decide, made]
  refine ⟨mapped, rfl, count, fun i => ?_, ?_, ?_⟩
  · by_cases below : i < extents.length
    · have here := (List.forall₂_iff_get.mp each).2 i (by simpa using count ▸ below) below
      rw [List.get_eq_getElem, List.getElem_range, List.get_eq_getElem] at here
      have same := BlockClass.index_of_fromIndex here
      rw [number i (by omega)] at same
      rw [List.getElem?_eq_getElem below, Option.some.injEq]
      constructor
      · intro known
        rw [known] at same
        by_contra other
        rw [if_neg other] at same
        cases same
      · intro known
        rw [if_pos known] at same
        exact BlockClass.ext_index same.symm
    · have out : extents.length ≤ i := Nat.le_of_not_lt below
      rw [List.getElem?_eq_none out]
      simp only [reduceCtorEq, false_iff]
      omega
  · rw [base]
    exact (bit_ 0 (by decide)).trans (by rw [Bitmap.get_set, if_pos rfl])
  · rw [base]
    refine (bit_ 1 (by decide)).trans ?_
    rw [Bitmap.get_set, if_neg (by decide), Bitmap.get, ← base, Nat.add_assoc, gap _ (by decide)]
    rfl

theorem Reread.claims {s : ExtentManager} (reread : Reread s) :
    ∃ p s', (ExtentManager.allocate fourKiB minBlockSize).run s = (.ok p, s') ∧
      s'.fileId = s.fileId ∧ p.fileId = s.fileId ∧ p.extentIndex.toNat = 4114 ∧
      p.slotIndex.toNat < smallest.slotsPerExtent ∧ p.blockClass.toNat = smallest.index := by
  have index := toNat_ofNat32 (k := 4114) (by decide)
  have count := reread.count
  have known {idx : UInt32} (mem : idx ∈ s.candidateIndices smallest) : idx.toNat = 4114 :=
    (reread.smallest_iff _).mp (extents_of_candidate (by omega) mem)
  have notFull : ¬ Full s smallest := by
    intro full
    have none := full (UInt32.ofNat 4114)
      (mem_candidateIndices.mpr ⟨4114, (reread.smallest_iff 4114).mpr rfl, rfl⟩)
    rw [index, Bitmap.firstFree, List.find?_eq_none] at none
    have used := none 1 (List.mem_range.mpr (by decide))
    rw [reread.free] at used
    exact used rfl
  obtain ⟨p, s', made, file, kind, claimed | ⟨full, -⟩⟩ := allocate_run fourKiB forSize_min
    reread.writable (fun idx mem => by
      rw [known mem, reread.mapped, extentSize_eq]
      decide) fun full => (absurd full notFull : Room s 0)
  · refine ⟨p, s', made, by rw [claimed.state, withMark_fileId], file, known claimed.candidate,
      claimed.below, by rw [kind, smallest.toNat_index]⟩
  · exact absurd full notFull

theorem Tall.overlaps (tall : Tall 4114 t) : ¬ Sound (t.exec fourKiB
    [.allocate maxBlockSize, .allocate maxBlockSize, .reopen, .allocate minBlockSize]) := by
  intro sound
  obtain ⟨p₁, s₁, made₁, -, skipped⟩ := tall.skips
  obtain ⟨p₂, made₂, file₂, extent₂, slot₂, kind₂⟩ := skipped.claims
  obtain ⟨s₃, made₃, file₃, reread⟩ := skipped.reopens
  obtain ⟨p₄, s₄, made₄, same₄, file₄, extent₄, slot₄, kind₄⟩ := reread.claims
  have end_ : t.exec fourKiB [.allocate maxBlockSize, .allocate maxBlockSize, .reopen,
      .allocate minBlockSize] = { manager := s₄, live := p₄ :: p₂ :: p₁ :: t.live } := by
    simp only [Client.exec, List.foldl_cons, List.foldl_nil, Client.step, made₁, made₂,
      withMark_fileId, made₃, made₄]
  rw [end_] at sound
  have apart := (List.pairwise_cons.mp sound.disjoint).1 p₂ List.mem_cons_self _ _ _ _
    (slotOffset_of_kind (by rw [file₄, same₄]) kind₄)
    (slotOffset_of_kind (by rw [file₂, same₄, file₃]) kind₂)
  have small : smallest.blockSize = 512 := rfl
  have large : largest.blockSize = 16777216 := rfl
  have slots : smallest.slotsPerExtent = 32768 := rfl
  rw [slotBase, slotBase, extent₄, extent₂, slot₂, small, large] at apart
  omega

end Drift

theorem slots_disjoint {fileId : UInt32} {ops : List Op}
    (clean : Clean page (.create fileId) ops) : Sound ((Client.create fileId).exec page ops) :=
  ((Client.Fine.create fileId).exec clean).sound

theorem slots_disjoint_reopened : Sound ((Client.create 0).exec fourKiB
    [.allocate maxBlockSize, .reopen, .allocate maxBlockSize, .free ⟨0, 0, 0, 15⟩]) := by
  apply slots_disjoint
  refine ⟨fun _ _ _ => ?_, ?_, fun _ _ _ => ?_, trivial, trivial⟩
  all_goals
    simp only [Op.Clean, Level]
    decide +kernel

-- The 4115th extent is skipped, the 4116th value goes into the gap, and the next open takes the gap
-- for an extent of the smallest class: its second slot lies inside that value.
def intoTheGap : List Op := List.replicate 4114 (.allocate maxBlockSize) ++
  [.allocate maxBlockSize, .allocate maxBlockSize, .reopen, .allocate minBlockSize]

theorem slots_overlap : ¬ Sound ((Client.create 0).exec fourKiB intoTheGap) := by
  rw [intoTheGap, Client.exec_append]
  exact (tall_run le_rfl).overlaps

end Gems.Storage
