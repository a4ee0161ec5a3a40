import Gems.Index.Durable
import Gems.Storage.Disjoint

set_option autoImplicit false

namespace Gems.Index

open Lib Prog BTree

variable {K V : Type} [LinearOrder K] [FixedCodec K] [FixedCodec V]

section Updates

-- The next `count` pages that allocations hand out.
def nextPages (p : Pager) (count : Nat) : List Nat :=
  match freePages p p.header.pageCount p.header.freeListHead with
  | .ok free => (free ++ List.range' p.header.pageCount count).take count
  | .error _ => []

/-- The next `count` pages lie in the OS page of the header, which every commit flushes. -/
def BesideHeader (os : PageSize) (p : Pager) (count : Nat) : Prop :=
  ∀ i ∈ nextPages p count, (i + 1) * p.header.pageSize ≤ os.size

inductive Update (K V : Type) where
  | insert (key : K) (value : V)
  | delete (key : K)

namespace Update

def op : Update K V → Op K V
  | .insert key value => .insert key value
  | .delete key => .delete key

def exec (os : PageSize) (fuel : Nat) : Update K V → Gems.Prog BTree Unit
  | .insert key value => BTree.insert os fuel key value
  | .delete key => do
    let _ ← BTree.delete V os fuel key
    pure ()

-- How many pages the update takes.
def count (p : Pager) (fuel : Nat) : Update K V → Nat
  | .insert key value => insertCount p fuel key value
  | .delete key => deleteCount V p fuel key

end Update

/-- A run of updates that returned and took no page outside the OS page of the header. -/
inductive Careful (os : PageSize) (fuel : Nat) : BTree → List (Update K V) → BTree → Prop
  | nil {t : BTree} : Careful os fuel t [] t
  | cons {t t' t'' : BTree} {u : Update K V} {rest : List (Update K V)}
      (beside : BesideHeader os t.pager (u.count t.pager fuel))
      (ran : (u.exec os fuel).run t = (.ok (), t')) (later : Careful os fuel t' rest t'') :
      Careful os fuel t (u :: rest) t''

end Updates

variable {os : PageSize} {m m' m1 : Image} {p : Pager} {t t' : BTree} {map map' : K → Option V}
  {own own' lost free free' taken : List Nat} {depth depth' count fuel newRoot : Nat} {e : Fault}
  {disk : Storage.DiskFile} {u : Update K V}

section Next

theorem Built.next (keeps : Keeps t map depth own free lost)
    (built : Built os (t.pager.image free) own map' depth' count t' free' taken own' newRoot) :
    nextPages t.pager count = taken := by
  have valid := keeps.good.valid
  have few : free.length < t.pager.header.pageCount := by
    have length := keeps.maps.pages.length_eq
    have count : 1 ≤ t.pager.header.pageCount := valid.count
    rw [List.length_append, List.length_append, List.length_range'] at length
    change own.length + (free.length + lost.length) = t.pager.header.pageCount - 1 at length
    omega
  have walked : freePages t.pager t.pager.header.pageCount t.pager.header.freeListHead = .ok free :=
    freePages_spec keeps.good valid.chain valid.inside few
  have order : free ++ List.range' t.pager.header.pageCount
      (t'.pager.header.pageCount - t.pager.header.pageCount) = taken ++ free' := built.progress.moved.order
  have long : count ≤ free.length + (t'.pager.header.pageCount - t.pager.header.pageCount) := by
    have length := congrArg List.length order
    rw [List.length_append, List.length_append, List.length_range', built.count] at length
    omega
  simp only [nextPages, walked]
  calc (free ++ List.range' t.pager.header.pageCount count).take count
      = (free ++ List.range' t.pager.header.pageCount
          (t'.pager.header.pageCount - t.pager.header.pageCount)).take count := by
        rw [List.take_append, List.take_append, List.take_range'_of_length_ge (Nat.sub_le _ _),
          List.take_range'_of_length_ge (by omega)]
    _ = taken := by rw [order, List.take_left' built.count]

end Next

section Steps

theorem update_steps (os : PageSize) (keeps : Keeps t map depth own free lost) (enough : depth ≤ fuel)
    (u : Update K V) :
    Spec (u.exec os fuel) t
      (fun _ t' => (u.op.onMap map = map ∧ u.count t.pager fuel = 0 ∧ t'.pager = t.pager) ∨
        ∃ depth' ≤ depth + 1, Updated os (t.pager.image free) own (u.op.onMap map) depth'
          (u.count t.pager fuel) t')
      (fun e t' => ∃ depth' ≤ depth + 1, Updating os (t.pager.image free) own (u.op.onMap map) depth'
        (u.count t.pager fuel) e t') := by
  cases u with
  | insert key value =>
    refine spec_weaken (insert_steps keeps.good keeps.caps keeps.maps enough) ?_ ?_
    · exact fun _ t' updated => .inr ⟨depth + 1, le_rfl, updated⟩
    · exact fun e t' updating => ⟨depth + 1, le_rfl, updating⟩
  | delete key =>
    refine spec_bind (spec_weaken (delete_steps keeps.good keeps.caps keeps.maps enough)
      (fun _ _ here => here) fun e t' updating => ⟨depth, Nat.le_succ _, updating.2⟩) ?_
    rintro removed t' ⟨-, ⟨absent, rfl, none⟩ | ⟨-, updated⟩⟩
    · exact spec_pure (.inl ⟨Function.update_eq_self_iff.mpr absent.symm, none, rfl⟩)
    · exact spec_pure (.inr ⟨depth, Nat.le_succ _, updated⟩)

theorem beside_taken (keeps : Keeps t map depth own free lost)
    (beside : BesideHeader os t.pager count)
    (built : Built os (t.pager.image free) own map' depth' count t' free' taken own' newRoot) :
    ∀ i ∈ taken, (i + 1) * (t.pager.image free).header.pageSize ≤ os.size := by
  rw [BesideHeader, built.next keeps] at beside
  exact beside

theorem Built.from
    (built : Built os m own map' depth' count t' free' taken own' newRoot) : own' ⊆ own ++ taken :=
  fun _ mem => built.pages.mem_iff.mp (List.mem_append_left _ mem)

theorem atomic_of_beside (keeps : Keeps t map depth own free lost)
    (durable : Durable os (t.pager.image free) own) (enough : depth ≤ fuel)
    (beside : BesideHeader os t.pager (u.count t.pager fuel)) :
    CrashAtomic os (u.exec os fuel) t map (u.op.onMap map) := by
  intro writes disk crash
  have halted {m1 : Image} {taken : List Nat} {e : Fault} (moved : Moved (t.pager.image free) taken m1)
      (halt : Halt m1 e ((u.exec os fuel).leave writes t).pager) : Reopens os disk map := by
    obtain ⟨h, free', taken', valid, later, -⟩ := halt
    exact (moved.trans later).reopens keeps.maps durable valid crash
  have committed {t1 : BTree} {h : Header} {depth' newRoot : Nat}
      {free1 taken own' free' lost' : List Nat}
      (built : Built os (t.pager.image free) own (u.op.onMap map) depth' (u.count t.pager fuel) t1 free1
        taken own' newRoot)
      (committed : Committed (t1.pager.image free1) newRoot own' t1.pendingFree
        (((u.exec os fuel).leave writes t).pager.file h free') lost') :
      Reopens os disk map ∨ Reopens os disk (u.op.onMap map) := by
    have used : ∀ i ∈ own', (t1.pager.image free1).Used i := fun i mem =>
      built.used keeps.maps i (List.mem_append_left _ mem)
    exact committed.reopens keeps.maps durable built.progress.moved built.from used
      (beside_taken keeps beside built) (committed.maps keeps.maps built) crash
  rcases (update_steps os keeps enough u).leave writes with
    ⟨-, ⟨-, -, same⟩ | ⟨depth', -, t1, free1, taken, own', newRoot, built, -, free', -, done, -⟩⟩ |
    ⟨e, depth', -, halt | ⟨t1, free1, taken, own', newRoot, built, halt | ⟨h, free', lost', -, done⟩⟩⟩
  · rw [same] at crash
    exact .inl ((Moved.refl _).reopens (h := t.pager.fileHeader) keeps.maps durable keeps.good.valid crash)
  · exact committed (h := ((u.exec os fuel).leave writes t).pager.fileHeader) built done
  · exact .inl (halted (.refl _) halt)
  · exact .inl (halted built.progress.moved halt)
  · exact committed built done

theorem durable_of_beside (keeps : Keeps t map depth own free lost)
    (durable : Durable os (t.pager.image free) own) (enough : depth ≤ fuel)
    (beside : BesideHeader os t.pager (u.count t.pager fuel))
    (ran : (u.exec os fuel).run t = (.ok (), t')) :
    ∃ own' free', Keeps t' (u.op.onMap map) (depth + 1) own' free' lost ∧
      Durable os (t'.pager.image free') own' := by
  have done := (update_steps os keeps enough u).run
  rw [ran] at done
  rcases done with ⟨unchanged, -, same⟩ | ⟨depth', deep, updated⟩
  · rw [unchanged]
    refine ⟨own, free, ⟨?_, ?_, ?_⟩, ?_⟩ <;> rw [same]
    · exact keeps.good
    · exact keeps.maps.deeper (Nat.le_succ _)
    · exact keeps.caps
    · exact durable
  · obtain ⟨t1, free1, taken, own', newRoot, built, pending, free', good, committed, first⟩ := updated
    have maps := committed.maps keeps.maps built
    have size : t'.pager.header.pageSize = t.pager.header.pageSize :=
      committed.swapped.size.trans built.progress.moved.size
    refine ⟨own', free', ⟨good, maps.deeper deep, size ▸ keeps.caps⟩, ⟨?_, ?_⟩⟩
    · intro bytes mem
      obtain rfl : bytes = t'.pager.bytes := List.mem_singleton.mp (first ▸ mem)
      exact (good.valid.version (· ∈ own')).stored
    · intro osPage bytes mem
      by_cases header : osPage = 0
      · subst header
        obtain rfl : bytes = t'.pager.bytes := List.mem_singleton.mp (first ▸ mem)
        exact (good.valid.version (· ∈ own')).shows
      · exact committed.shows keeps.maps durable built.progress.moved built.from
          (beside_taken keeps beside built) header mem

end Steps

section Lost

variable {size c : Nat}

-- Pages and OS pages lie inside each other.
def Aligned (os : PageSize) (size : Nat) : Prop := size ∣ os.size ∨ os.size ∣ size

theorem Aligned.beside_or (aligned : Aligned os size) {i : Nat} (page : 1 ≤ i) :
    (i + 1) * size ≤ os.size ∨ os.size ≤ i * size := by
  rcases aligned with ⟨k, eq⟩ | ⟨k, rfl⟩
  · rw [eq, Nat.mul_comm size k]
    rcases Nat.lt_or_ge i k with inside | beyond
    · exact .inl (Nat.mul_le_mul_right _ inside)
    · exact .inr (Nat.mul_le_mul_right _ beyond)
  · cases k with
    | zero => exact .inl (by simp)
    | succ k => exact .inr ((Nat.le_mul_of_pos_right _ k.succ_pos).trans (Nat.le_mul_of_pos_left _ page))

-- Every OS page shows the file as it is, but one that lost all since `lost`.
def losing (os : PageSize) (p : Pager) (osPage : Nat) (lost : Bytes) : Storage.DiskFile where
  bytes := fun i => if i < p.fileLen then (if i / os.size = osPage then lost else p.bytes) i else 0
  len := p.fileLen

theorem losing_crash {lost : Bytes} {osPage : Nat} (good : Good p free) (held : lost ∈ p.held osPage) :
    Crash os p (losing os p osPage lost) where
  len := rfl
  page := by
    intro other
    by_cases same : other = osPage
    · subst same
      exact ⟨lost, held, fun i place => by simp [losing, place]⟩
    · exact ⟨p.bytes, good.current other, fun i place => by simp [losing, place, same]⟩

/-- An update that took a page outside the OS page of the header: when the machine stops right after it
and the last such page did not reach the disk, no tree is found. -/
theorem lost_page (keeps : Keeps t map depth own free lost) (aligned : Aligned os t.pager.header.pageSize)
    (updated : Updated os (t.pager.image free) own map' depth' count t')
    (outside : ¬ BesideHeader os t.pager count) :
    ∃ disk, Crash os t'.pager disk ∧ ∀ map : K → Option V, ¬ Reopens os disk map := by
  obtain ⟨t1, free1, taken, own', newRoot, built, -, free', good, committed, -⟩ := updated
  have used := built.used keeps.maps
  have swapped := committed.swapped
  have size1 : t1.pager.header.pageSize = t.pager.header.pageSize := built.progress.moved.size
  have size : t'.pager.header.pageSize = t.pager.header.pageSize := swapped.size.trans size1
  have fresh {i : Nat} (mem : i ∈ taken) :=
    built.progress.moved.toKept.mem_taken keeps.good.valid mem
  have takes {i : Nat} (mem : i ∈ taken) : i ∈ own' := by
    have here := built.pages.mem_iff.mpr (List.mem_append_right own mem)
    refine (List.mem_append.mp here).resolve_right fun retired => ?_
    exact (fresh mem).2 (keeps.maps.used i (built.retired retired))
  -- the last of them
  have some : ∃ c ∈ taken, os.size ≤ c * t.pager.header.pageSize := by
    rw [BesideHeader, built.next keeps] at outside
    obtain ⟨c, large⟩ := not_forall.mp outside
    obtain ⟨mem, large⟩ := Classical.not_imp.mp large
    exact ⟨c, mem, (aligned.beside_or (fresh mem).1.1).resolve_left large⟩
  obtain ⟨before, c, after, split, large, last⟩ := split_at_last some
  have mem : c ∈ taken := split ▸ List.mem_append_right _ List.mem_cons_self
  have beyond : c * t.pager.header.pageSize / os.size ≠ 0 := (Nat.div_pos large os.positive).ne'
  obtain ⟨content, held1, zero⟩ := built.progress.blank c mem (by
    rw [show (t1.pager.image free1).header.pageSize = t.pager.header.pageSize from size1]
    exact large)
  rw [show (t1.pager.image free1).header.pageSize = t.pager.header.pageSize from size1] at held1 zero
  have held : content ∈ t'.pager.held (c * t.pager.header.pageSize / os.size) :=
    swapped.keeps _ beyond content held1
  let disk := losing os t'.pager (c * t.pager.header.pageSize / os.size) content
  refine ⟨disk, losing_crash good held, fun map found => ?_⟩
  -- The header is there, with the new root.
  obtain ⟨(first : headerEncodedLen ≤ t'.pager.fileLen),
    (inside : ∀ i < t'.pager.header.pageCount, i * t.pager.header.pageSize + t.pager.header.pageSize ≤
      t'.pager.fileLen)⟩ := inside_grown keeps.good.valid good.valid size
    (built.progress.moved.count.trans swapped.count.ge)
  have present {i : Nat} (here : i < t'.pager.fileLen)
      (other : i / os.size ≠ c * t.pager.header.pageSize / os.size) : disk.bytes i = t'.pager.bytes i := by
    simp [disk, losing, here, other]
  have front {i : Nat} (below : i < os.size) :
      i / os.size ≠ c * t.pager.header.pageSize / os.size := by
    rw [Nat.div_eq_of_lt below]
    exact beyond.symm
  have header : slice disk.bytes 0 headerEncodedLen = t'.pager.fileHeader.encode := by
    have short := header_short os
    refine (slice_congr fun i _ below => ?_).trans good.valid.stored
    exact present (show i < t'.pager.fileLen by omega) (front (by omega))
  obtain ⟨t'', opened, tree⟩ := found
  rw [open_stored os header good.valid.fits first] at opened
  obtain rfl := Except.ok.inj opened
  have read {i : Nat} (mem : i ∈ taken) : i < t'.pager.header.pageCount ∧
      readPage ⟨disk.bytes, disk.len, roundUpToOsPage os disk.len, t'.pager.fileHeader, fun _ => [disk.bytes]⟩
        i = pageBytes disk.bytes t.pager.header.pageSize i := by
    have below : i < t'.pager.header.pageCount := (fresh mem).1.2.1.trans_eq swapped.count.symm
    have whole : i * t'.pager.header.pageSize + t'.pager.header.pageSize ≤ disk.len := by
      rw [size]
      exact inside i below
    have page := readPage_mapped t'.pager.fileHeader os whole fun _ => [disk.bytes]
    rw [show t'.pager.fileHeader.pageSize = t.pager.header.pageSize from size] at page
    exact ⟨below, page⟩
  have reads : Reads K V (readPage ⟨disk.bytes, disk.len, roundUpToOsPage os disk.len, t'.pager.fileHeader,
      fun _ => [disk.bytes]⟩) newRoot := by
    have root : t'.pager.header.rootPage = newRoot := swapped.root
    rcases tree with ⟨none, -⟩ | ⟨depth, entries, pages, stored, -⟩
    · obtain ⟨entries, stored, -⟩ := built.tree
      have positive := (used newRoot (List.mem_append_left _ stored.self_mem)).1
      exact absurd (root.symm.trans none) (Nat.one_le_iff_ne_zero.mp positive)
    · exact ⟨depth, _, _, entries, pages, root ▸ stored⟩
  refine built.exposed _ before c after split (fun i later => ?_) ?_ fun root only =>
    List.mem_singleton.mp only ▸ reads
  · -- what was taken after it lies beside the header
    have inside' : i ∈ taken := split ▸ List.mem_append_right _ (List.mem_cons_of_mem _ later)
    have whole := (aligned.beside_or (fresh inside').1.1).resolve_right (last i later)
    obtain ⟨below, page⟩ := read inside'
    have room := inside i below
    rw [Nat.add_mul, Nat.one_mul] at whole
    have same : (t'.pager.image free').pageAt i = (t1.pager.image free1).pageAt i :=
      swapped.same i (takes inside')
    rw [page, ← same, Image.pageAt]
    change _ = pageBytes t'.pager.bytes t'.pager.header.pageSize i
    rw [size]
    exact slice_congr fun j _ below => present (by omega) (front (by omega))
  · obtain ⟨below, page⟩ := read mem
    have room := inside c below
    have positive : 0 < t.pager.header.pageSize :=
      (show 0 < headerEncodedLen by decide).trans_le keeps.good.valid.size
    have head : (pageBytes disk.bytes t.pager.header.pageSize c)[0]? = _ := getElem?_slice positive
    rw [page, List.head?_eq_getElem?, head]
    have here : c * t.pager.header.pageSize < t'.pager.fileLen := by omega
    simp only [disk, losing, Nat.add_zero, here, if_true, zero]

theorem beside_of_atomic (keeps : Keeps t map depth own free lost) (enough : depth ≤ fuel)
    (aligned : Aligned os t.pager.header.pageSize) (ran : (u.exec os fuel).run t = (.ok (), t'))
    (atomic : CrashAtomic os (u.exec os fuel) t map (u.op.onMap map)) :
    BesideHeader os t.pager (u.count t.pager fuel) := by
  have done := (update_steps os keeps enough u).run
  rw [ran] at done
  have none (same : u.count t.pager fuel = 0) : BesideHeader os t.pager (u.count t.pager fuel) := by
    rw [same]
    intro i mem
    unfold nextPages at mem
    split at mem <;> simp at mem
  rcases done with ⟨-, same, -⟩ | ⟨depth', -, updated⟩
  · exact none same
  · by_contra outside
    obtain ⟨disk, crash, nowhere⟩ := lost_page keeps aligned updated outside
    rw [show t' = (u.exec os fuel).leave .none t by rw [leave_run, ran]] at crash
    rcases atomic .none disk crash with before | after
    · exact nowhere _ before
    · exact nowhere _ after

end Lost

section Opened

theorem Keeps.opened (keeps : Keeps t map depth own free lost)
    (opened : BTree.openFile os t.pager.onDisk = .ok t') :
    t'.pager.header = t.pager.fileHeader ∧ Keeps t' map depth own free lost ∧
      Durable os (t'.pager.image free) own := by
  obtain ⟨p', made, header, file, good, same, held⟩ := reopen_ok os keeps.maps.valid
  have found : BTree.openFile os t.pager.onDisk = .ok ⟨p', []⟩ := by
    simp only [BTree.openFile, made]
    rfl
  obtain rfl : t' = ⟨p', []⟩ := Except.ok.inj (opened.symm.trans found)
  refine ⟨header, ⟨good, keeps.maps.congr good.valid file rfl same, ?_⟩, ⟨?_, ?_⟩⟩
  · rw [header]
    exact keeps.caps
  · intro bytes mem
    obtain rfl : bytes = p'.bytes := List.mem_singleton.mp (held 0 ▸ mem)
    exact (good.valid.version (· ∈ own)).stored
  · intro osPage bytes mem
    obtain rfl : bytes = p'.bytes := List.mem_singleton.mp (held osPage ▸ mem)
    exact (good.valid.version (· ∈ own)).shows

theorem careful_keeps {updates : List (Update K V)} (careful : Careful os fuel t updates t')
    (keeps : Keeps t map depth own free lost) (durable : Durable os (t.pager.image free) own)
    (enough : depth + updates.length ≤ fuel) :
    ∃ depth' own' free', depth' ≤ fuel ∧
      Keeps t' (contents (updates.map Update.op) map) depth' own' free' lost ∧
      Durable os (t'.pager.image free') own' := by
  induction careful generalizing map depth own free with
  | nil => exact ⟨depth, own, free, enough, keeps, durable⟩
  | @cons t t1 t2 u rest beside ran later ih =>
    rw [List.length_cons] at enough
    obtain ⟨own1, free1, keeps1, durable1⟩ := durable_of_beside keeps durable (by omega) beside ran
    exact ih keeps1 durable1 (by omega)

/-- The update is atomic when the pages it takes lie beside the header; when pages and OS pages lie inside
each other and the update returns, only then. -/
def AtomicBeside (os : PageSize) (fuel : Nat) (u : Update K V) (t : BTree) (map : K → Option V) : Prop :=
  (BesideHeader os t.pager (u.count t.pager fuel) →
    CrashAtomic os (u.exec os fuel) t map (u.op.onMap map)) ∧
  (Aligned os t.pager.header.pageSize → (∃ t', (u.exec os fuel).run t = (.ok (), t')) →
    CrashAtomic os (u.exec os fuel) t map (u.op.onMap map) →
    BesideHeader os t.pager (u.count t.pager fuel))

variable {pageSize : UInt32} {new closed : BTree} {ops : List (Op K V)} {updates : List (Update K V)}
  {given : List (Reply V)}

/-- Any tree that an open finds on disk, and a run of updates on it that took no page elsewhere. -/
theorem update_atomicity (caps : Capacities K V pageSize.toNat)
    (created : BTree.create K V os pageSize.toNat = .ok new)
    (before : runAll os fuel ops new = (.ok given, closed))
    (opened : BTree.openFile os closed.pager.onDisk = .ok t) (careful : Careful os fuel t updates t')
    (enough : ops.length + updates.length ≤ fuel) (u : Update K V) :
    AtomicBeside os fuel u t' (contents (ops ++ updates.map Update.op) fun _ => none) := by
  have ran := runAll_spec os (created_keeps caps created) (by omega : 0 + ops.length ≤ fuel)
  rw [before] at ran
  obtain ⟨-, depth, own, free, shallow, keeps⟩ := ran
  obtain ⟨-, keeps1, durable1⟩ := keeps.opened opened
  obtain ⟨depth', own', free', enough', keeps', durable'⟩ :=
    careful_keeps careful keeps1 durable1 (by omega)
  rw [contents, List.foldl_append]
  exact ⟨atomic_of_beside keeps' durable' enough', fun aligned ⟨_, ran⟩ =>
    beside_of_atomic keeps' enough' aligned ran⟩

def firstSlot : Storage.SlotPointer := ⟨0, 0, 0, 0⟩

theorem Keeps.open (os : PageSize) (keeps : Keeps t map depth own free lost) :
    ∃ t', BTree.openFile os t.pager.onDisk = .ok t' := by
  obtain ⟨t', opened, -⟩ := reopen_spec os keeps.maps
  exact ⟨t', opened⟩

-- The first insertion into an empty tree takes page 1.
theorem first_insert_pages (created : BTree.create K V os pageSize.toNat = .ok new)
    (header : t.pager.header = new.pager.fileHeader) (fuel : Nat) (key : K) (value : V) :
    BesideHeader os t.pager (Update.count t.pager fuel (.insert key value)) ↔
      2 * pageSize.toNat ≤ os.size := by
  have empty : t.pager.header = { newHeader K V pageSize.toNat with commitSeq := new.pager.fileSeq } := by
    rw [header, Pager.fileHeader, created_header created]
  have next : nextPages t.pager (Update.count t.pager fuel (.insert key value)) = [1] := by
    simp only [nextPages, Update.count, insertCount, empty, newHeader]
    rfl
  rw [BesideHeader, next, List.forall_mem_singleton, empty]
  rfl

/-- With index pages of 256 bytes. -/
theorem update_atomicity_small :
    ∃ new t, BTree.create Tuid Storage.SlotPointer Storage.fourKiB (256 : UInt32).toNat = .ok new ∧
      BTree.openFile Storage.fourKiB new.pager.onDisk = .ok t ∧
      CrashAtomic Storage.fourKiB (BTree.insert Storage.fourKiB 1 Tuid.nil firstSlot) t
        (fun _ => none) ((Op.insert Tuid.nil firstSlot).onMap fun _ => none) := by
  have caps : Capacities Tuid Storage.SlotPointer (256 : UInt32).toNat :=
    ⟨by decide, by decide, by decide, by decide⟩
  obtain ⟨new, created, -⟩ :=
    create_spec Tuid Storage.SlotPointer Storage.fourKiB (by decide) (256 : UInt32).toNat_lt
  have keeps := created_keeps caps created
  obtain ⟨t, opened⟩ := keeps.open Storage.fourKiB
  have beside := (first_insert_pages created (keeps.opened opened).1 1 Tuid.nil firstSlot).mpr (by decide)
  have start : runAll Storage.fourKiB 1 ([] : List (Op Tuid Storage.SlotPointer)) new = (.ok [], new) := rfl
  have atomic := update_atomicity caps created start opened .nil (Nat.zero_le _) (.insert Tuid.nil firstSlot)
  exact ⟨new, t, created, opened, atomic.1 beside⟩

/-- The pages of the primary index: the first insertion publishes page 1, of which nothing need have
reached the disk. -/
theorem first_insert_torn :
    ∃ new t, BTree.create Tuid Storage.SlotPointer Storage.fourKiB (4096 : UInt32).toNat = .ok new ∧
      BTree.openFile Storage.fourKiB new.pager.onDisk = .ok t ∧
      ¬ CrashAtomic Storage.fourKiB (BTree.insert Storage.fourKiB 1 Tuid.nil firstSlot) t
        (fun _ => none) ((Op.insert Tuid.nil firstSlot).onMap fun _ => none) := by
  obtain ⟨new, created, -⟩ :=
    create_spec Tuid Storage.SlotPointer Storage.fourKiB (by decide) (4096 : UInt32).toNat_lt
  have keeps := created_keeps primary_capacities created
  obtain ⟨t, opened⟩ := keeps.open Storage.fourKiB
  obtain ⟨header, keeps1, -⟩ := keeps.opened opened
  have returns : ((BTree.insert Storage.fourKiB 1 Tuid.nil firstSlot).run t).1 =
      .ok () := by
    have evaluated : (BTree.create Tuid Storage.SlotPointer Storage.fourKiB (4096 : UInt32).toNat >>=
        fun new => BTree.openFile Storage.fourKiB new.pager.onDisk >>= fun t =>
          ((BTree.insert Storage.fourKiB 1 Tuid.nil firstSlot).run t).1).isOk = true := by
      decide +kernel
    rw [created] at evaluated
    change (BTree.openFile Storage.fourKiB new.pager.onDisk >>= _).isOk = true at evaluated
    rw [opened] at evaluated
    change ((BTree.insert Storage.fourKiB 1 Tuid.nil firstSlot).run t).1.isOk = true at evaluated
    cases made : ((BTree.insert Storage.fourKiB 1 Tuid.nil firstSlot).run t).1 with
    | ok done => rfl
    | error e =>
      rw [made] at evaluated
      cases evaluated
  have ran : ((Update.insert Tuid.nil firstSlot).exec Storage.fourKiB 1).run t =
      (.ok (), _) := Prod.ext returns rfl
  refine ⟨new, t, created, opened, fun atomic => ?_⟩
  have aligned : Aligned Storage.fourKiB t.pager.header.pageSize := by
    have size : t.pager.header.pageSize = (4096 : UInt32).toNat := by
      rw [header, Pager.fileHeader, created_header created]
      rfl
    rw [size]
    exact .inl (by decide)
  have beside := beside_of_atomic keeps1 (Nat.zero_le _) aligned ran atomic
  exact absurd ((first_insert_pages created header 1 Tuid.nil firstSlot).mp beside) (by decide)

end Opened

end Gems.Index
