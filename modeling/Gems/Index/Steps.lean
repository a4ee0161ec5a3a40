import Gems.Index.Update

set_option autoImplicit false

namespace Gems.Index

open Lib Prog BTree

variable {K V : Type} [LinearOrder K] [FixedCodec K] [FixedCodec V]

variable {os : PageSize} {m : Image} {p : Pager} {t t' : BTree} {map map' : K → Option V} {h : Header}
  {own own' lost free : List Nat} {depth depth' count fuel : Nat} {key : K} {value : V} {e : Fault}

section Reopen

theorem reopen_ok (os : PageSize) (valid : (p.file h free).Valid) :
    ∃ p', Pager.openFile os p.onDisk = .ok p' ∧ p'.header = h ∧ p'.fileHeader = h ∧ Good p' free ∧
      (∀ i < h.pageCount, (p'.image free).pageAt i = (p.file h free).pageAt i) ∧
      ∀ osPage, p'.held osPage = [p'.bytes] := by
  have len : h.pageCount * h.pageSize ≤ p.fileLen := valid.len
  have first : headerEncodedLen ≤ p.fileLen :=
    (show headerEncodedLen ≤ h.pageSize from valid.size).trans
      ((Nat.le_mul_of_pos_left _ valid.count).trans len)
  have stored : slice (truncate p.bytes p.fileLen) 0 headerEncodedLen = h.encode := by
    have same : slice (truncate p.bytes p.fileLen) 0 headerEncodedLen =
        slice p.bytes 0 headerEncodedLen :=
      slice_congr fun i _ inside => truncate_inside (by omega)
    exact same.trans valid.stored
  have page : ∀ i < h.pageCount,
      pageBytes (truncate p.bytes p.fileLen) h.pageSize i = pageBytes p.bytes h.pageSize i :=
    fun i below => pageBytes_truncate ((page_end below).trans len)
  let p' : Pager :=
    { bytes := truncate p.bytes p.fileLen
      fileLen := p.fileLen
      mappedLen := roundUpToOsPage os p.fileLen
      header := h
      held := fun _ => [truncate p.bytes p.fileLen] }
  have again : (p'.file p'.header free).Valid :=
    { stored := stored
      fits := valid.fits
      size := valid.size
      count := valid.count
      len := len
      chain := valid.chain.congr fun i mem => page i (valid.inside i mem).2
      inside := valid.inside
      nodup := valid.nodup
      blank := fun i beyond => by
        have zero : p.bytes i = 0 := valid.blank i beyond
        simp [p', Pager.file, truncate, zero] }
  obtain ⟨good, whole⟩ := good_of_stored again (le_roundUpToOsPage os _) fun _ => List.mem_singleton_self _
  refine ⟨p', ?_, rfl, whole, good, page, fun _ => rfl⟩
  have some : p.fileLen ≠ 0 := by
    rintro none
    rw [none] at first
    exact absurd first (by decide)
  have decoded : Header.decode h.encode = .ok h := Header.decode_encode valid.fits
  simp only [Pager.openFile, Pager.onDisk, some, if_false, stored]
  rw [decoded]
  rfl

theorem Maps.congr {m' : Image} (maps : Maps m map depth own lost) (valid : m'.Valid)
    (header : m'.header = m.header) (free : m'.free = m.free)
    (same : ∀ i < m.header.pageCount, m'.pageAt i = m.pageAt i) : Maps m' map depth own lost where
  valid := valid
  tree := by
    rw [header]
    rcases maps.tree with empty | ⟨entries, stored, lists⟩
    · exact .inl empty
    · exact .inr ⟨entries, stored.congr (fun i mem => same i (maps.used i mem).2.1) le_rfl, lists⟩
  pages := by
    rw [header, free]
    exact maps.pages

theorem reopen_spec (os : PageSize) (maps : Maps (p.file h free) map depth own lost) :
    ∃ t, BTree.openFile os p.onDisk = .ok t ∧ t.pager.header = h ∧ Good t.pager free ∧
      Maps (t.pager.image free) map depth own lost := by
  obtain ⟨p', opened, header, file, good, same, -⟩ := reopen_ok os maps.valid
  refine ⟨⟨p', []⟩, ?_, header, good, maps.congr good.valid file rfl same⟩
  simp only [BTree.openFile, opened]
  rfl

end Reopen

section Create

variable {pageSize : Nat}

variable (K V) in
-- The header of a new index file.
def newHeader (pageSize : Nat) : Header :=
  { magic := Index.magic
    formatVersion := 1
    pageSize
    keyLen := FixedCodec.len K % 2 ^ 16
    valueLen := FixedCodec.len V % 2 ^ 16
    rootPage := 0
    freeListHead := 0
    pageCount := 1
    commitSeq := 0 }

omit [LinearOrder K] in
theorem newHeader_fits (small : pageSize < 2 ^ 32) : (newHeader K V pageSize).Fits where
  magic := rfl
  formatVersion := (show 1 < 2 ^ 16 by decide)
  pageSize := small
  keyLen := Nat.mod_lt _ (by decide)
  valueLen := Nat.mod_lt _ (by decide)
  rootPage := (show 0 < 2 ^ 32 by decide)
  freeListHead := (show 0 < 2 ^ 32 by decide)
  pageCount := (show 1 < 2 ^ 32 by decide)
  commitSeq := (show 0 < 2 ^ 64 by decide)

variable (K V) in
theorem create_spec (os : PageSize) (large : headerEncodedLen ≤ pageSize) (small : pageSize < 2 ^ 32) :
    ∃ t, BTree.create K V os pageSize = .ok t ∧ t.pager.header = newHeader K V pageSize ∧
      Good t.pager [] ∧ Maps (t.pager.image []) (fun _ : K => (none : Option V)) 0 [] [] := by
  let p : Pager :=
    { bytes := fun _ => 0
      fileLen := pageSize
      mappedLen := roundUpToOsPage os pageSize
      header := newHeader K V pageSize
      held := fun _ => [fun _ => 0] }
  have mapped : pageSize ≤ p.mappedLen := le_roundUpToOsPage os pageSize
  have written : Spec (Pager.writeHeader os) p
      (fun _ p' => p' = (p.store (patch p.bytes 0 p.header.encode)).flushed)
      (fun e _ => e = .stopped ∨ e = .refused) :=
    writeHeader_spec (large.trans mapped) rfl (.inl rfl) (.inl rfl) (.inr rfl)
  have ran := written.run
  cases made : (Pager.writeHeader os).run p with
  | mk result p' =>
    rw [made] at ran
    cases result with
    | error e => exact absurd ran.1 (not_or.mpr ran.2)
    | ok done =>
      obtain rfl : p' = (p.store (patch p.bytes 0 p.header.encode)).flushed := ran
      have stored : slice (patch p.bytes 0 p.header.encode) 0 headerEncodedLen = p.header.encode := by
        rw [← p.header.length_encode]
        exact slice_patch_same
      have valid : ((p.store (patch p.bytes 0 p.header.encode)).flushed.file p.header []).Valid :=
        { stored := stored
          fits := newHeader_fits small
          size := large
          count := le_rfl
          len := (Nat.one_mul pageSize).le
          chain := rfl
          inside := by simp [Pager.file]
          nodup := List.nodup_nil
          blank := fun i beyond => by
            have page : 1 * pageSize ≤ i := beyond
            have outside : patch p.bytes 0 p.header.encode i = p.bytes i :=
              patch_outside (.inr (by rw [Header.length_encode]; omega))
            exact outside }
      obtain ⟨good, -⟩ := good_of_stored valid mapped (Pager.flushed_current (Pager.store_current _ _))
      refine ⟨⟨_, []⟩, ?_, rfl, good, good.valid, .inl ⟨rfl, rfl, List.Pairwise.nil, by simp⟩, .nil⟩
      have opened : Pager.create os pageSize (FixedCodec.len K % 2 ^ 16) (FixedCodec.len V % 2 ^ 16) =
          .ok (p.store (patch p.bytes 0 p.header.encode)).flushed := by
        have start : p =
            { bytes := fun _ => 0
              fileLen := pageSize
              mappedLen := roundUpToOsPage os pageSize
              header := newHeader K V pageSize
              held := fun _ => [fun _ => 0] } := rfl
        rw [start, newHeader] at made
        rw [Pager.create, if_neg (Nat.not_lt.mpr large)]
        dsimp only
        rw [made]
        rfl
      rw [BTree.create, opened]
      rfl

end Create

section Answers

/-- An open tree that stores the map `map`, with no page lost. -/
structure Keeps (t : BTree) (map : K → Option V) (depth : Nat) (own free lost : List Nat) : Prop where
  good : Good t.pager free
  maps : Maps (t.pager.image free) map depth own lost
  caps : Capacities K V t.pager.header.pageSize

theorem Keeps.get (keeps : Keeps t map depth own free lost) (enough : depth ≤ fuel) (key : K) :
    BTree.get V fuel t key = .ok (map key) := by
  rw [BTree.get]
  rcases keeps.maps.tree with ⟨root, -, lists⟩ | ⟨entries, stored, lists⟩
  · have empty : t.pager.header.rootPage = 0 := root
    have finds : ∀ v, (none : Option V) = some v ↔ (key, v) ∈ ([] : List (K × V)) := by simp
    rw [if_pos empty, lists.lookup finds]
  · have present : t.pager.header.rootPage ≠ 0 :=
      Nat.one_le_iff_ne_zero.mp (keeps.maps.used _ stored.self_mem).1
    obtain ⟨found, got, finds⟩ := getLoop_spec stored
      (fun i mem => keeps.good.page (keeps.maps.used i mem).2.1)
      (⟨by simp, by simp⟩ : Within none none key) enough
    rw [if_neg present, ← lists.lookup finds]
    exact got

theorem Keeps.scan (keeps : Keeps t map depth own free lost) (enough : depth ≤ fuel) :
    ∃ entries, BTree.scanAll K V fuel t = .ok entries ∧ Lists entries map := by
  rw [BTree.scanAll]
  rcases keeps.maps.tree with ⟨root, -, lists⟩ | ⟨entries, stored, lists⟩
  · have empty : t.pager.header.rootPage = 0 := root
    exact ⟨[], if_pos empty, lists⟩
  · have present : t.pager.header.rootPage ≠ 0 :=
      Nat.one_le_iff_ne_zero.mp (keeps.maps.used _ stored.self_mem).1
    refine ⟨entries, ?_, lists⟩
    rw [if_neg present]
    exact scanRec_spec stored (fun i mem => keeps.good.page (keeps.maps.used i mem).2.1) enough

end Answers

section Outcomes

-- The page ids or the commit numbers are used up.
def Full (p : Pager) : Prop := Exhausted p.header

theorem Maps.deeper (maps : Maps m map depth own lost) (deeper : depth ≤ depth') :
    Maps m map depth' own lost where
  valid := maps.valid
  tree := maps.tree.imp_right fun ⟨entries, stored, lists⟩ =>
    ⟨entries, stored.congr (fun _ _ => rfl) deeper, lists⟩
  pages := maps.pages

def LeftAs (map : K → Option V) (pageSize depth : Nat) (e : Fault) (t : BTree) : Prop :=
  ∃ h free own lost, h.pageSize = pageSize ∧ Maps (t.pager.file h free) map depth own lost ∧ Cut e t.pager h free

-- The old map or the new one.
def Left (map map' : K → Option V) (pageSize depth : Nat) (e : Fault) (t : BTree) : Prop :=
  LeftAs map pageSize depth e t ∨ LeftAs map' pageSize depth e t

theorem LeftAs.keeps {pageSize : Nat} (left : LeftAs map pageSize depth .refused t)
    (caps : Capacities K V pageSize) :
    t.pager.header.pageSize = pageSize ∧ ∃ own free lost, Keeps t map depth own free lost := by
  obtain ⟨h, free, own, lost, size, maps, stop | ⟨-, good, file⟩⟩ := left
  · cases stop
  · obtain rfl := file
    exact ⟨size, own, free, lost, good, maps, size ▸ caps⟩

theorem Left.outside {pageSize : Nat} (left : Left map map' pageSize depth e t) : e.Outside := by
  obtain ⟨_, _, _, _, -, -, cut⟩ | ⟨_, _, _, _, -, -, cut⟩ := left
  · exact cut.imp_right And.left
  · exact cut.imp_right And.left

theorem Halt.old (maps : Maps m map depth own lost) (deeper : depth ≤ depth')
    (halt : Halt m e t.pager) : LeftAs map m.header.pageSize depth' e t ∨ e = .panicked ∧ Full t.pager := by
  obtain ⟨h, free, taken, valid, moved, cut | ⟨panic, full⟩⟩ := halt
  · exact .inl ⟨h, free, own, taken ++ lost, moved.size, (moved.maps maps valid).deeper deeper, cut⟩
  · exact .inr ⟨panic, full⟩

theorem UpdateLanded.new (maps : Maps m map depth own lost)
    (landed : UpdateLanded os m own map' depth' count e t) : LeftAs map' m.header.pageSize depth' e t := by
  obtain ⟨t1, free, taken, own', newRoot, built, h, free', lost', cut, committed⟩ := landed
  exact ⟨h, free', own', lost' ++ lost, committed.swapped.size.trans built.progress.moved.size,
    committed.maps maps built, cut⟩

theorem Halt.left (maps : Maps m map depth own lost) (deeper : depth ≤ depth')
    (halt : Halt m e t.pager) : Left map map' m.header.pageSize depth' e t ∨ e = .panicked ∧ Full t.pager :=
  (halt.old maps deeper).imp_left .inl

theorem Updating.left (maps : Maps m map depth own lost) (deeper : depth ≤ depth')
    (updating : Updating os m own map' depth' count e t) :
    Left map map' m.header.pageSize depth' e t ∨ e = .panicked ∧ Full t.pager := by
  rcases updating with halt | ⟨t1, free, taken, own', newRoot, built, halt | landed⟩
  · exact halt.left maps deeper
  · exact (halt.after built.progress.moved).left maps deeper
  · exact .inl (.inr (UpdateLanded.new maps ⟨t1, _, taken, own', newRoot, built, landed⟩))

theorem Updated.keeps (keeps : Keeps t map depth own free lost)
    (updated : Updated os (t.pager.image free) own map' depth' count t') :
    t'.pager.header.pageSize = t.pager.header.pageSize ∧
      ∃ own' free', Keeps t' map' depth' own' free' lost := by
  obtain ⟨t1, free1, taken, own', newRoot, built, pending, free', good, committed, -⟩ := updated
  have size : t'.pager.header.pageSize = t.pager.header.pageSize :=
    committed.swapped.size.trans built.progress.moved.size
  refine ⟨size, own', free', good, committed.maps keeps.maps built, ?_⟩
  rw [size]
  exact keeps.caps

theorem insert_halves (os : PageSize) (key : K) (value : V) (keeps : Keeps t map depth own free lost)
    (enough : depth ≤ fuel) :
    Spec (BTree.untilRoot os fuel key value) t
      (fun base t1 => Spec (BTree.afterRoot os base) t1
        (fun _ t' => t'.pager.header.pageSize = t.pager.header.pageSize ∧ ∃ own' free',
          Keeps t' (Function.update map key (some value)) (depth + 1) own' free' lost)
        (LeftAs (Function.update map key (some value)) t.pager.header.pageSize (depth + 1)))
      (fun e t' => LeftAs map t.pager.header.pageSize (depth + 1) e t' ∨ e = .panicked ∧ Full t'.pager) := by
  refine spec_weaken (insert_parts os keeps.good keeps.caps keeps.maps enough) ?_ ?_
  · intro base t1 rest
    exact spec_weaken rest (fun _ t' updated => updated.keeps keeps) fun e t' landed => landed.new keeps.maps
  · exact fun e t' halted => halted.old keeps.maps (Nat.le_succ _)

theorem insert_spec (os : PageSize) (key : K) (value : V) (keeps : Keeps t map depth own free lost)
    (enough : depth ≤ fuel) :
    Spec (BTree.insert os fuel key value) t
      (fun _ t' => t'.pager.header.pageSize = t.pager.header.pageSize ∧ ∃ own' free',
        Keeps t' (Function.update map key (some value)) (depth + 1) own' free' lost)
      (fun e t' => Left map (Function.update map key (some value)) t.pager.header.pageSize (depth + 1) e t' ∨
        e = .panicked ∧ Full t'.pager) := by
  refine spec_weaken (insert_steps keeps.good keeps.caps keeps.maps enough) ?_ ?_
  · exact fun _ t' updated => updated.keeps keeps
  · exact fun e t' updating => updating.left keeps.maps (Nat.le_succ _)

theorem delete_spec (os : PageSize) (key : K) (keeps : Keeps t map depth own free lost)
    (enough : depth ≤ fuel) :
    Spec (BTree.delete V os fuel key) t
      (fun removed t' => removed = map key ∧ t'.pager.header.pageSize = t.pager.header.pageSize ∧
        ∃ own' free', Keeps t' (Function.update map key none) depth own' free' lost)
      (fun e t' => Left map (Function.update map key none) t.pager.header.pageSize depth e t' ∨
        e = .panicked ∧ Full t'.pager) := by
  refine spec_weaken (delete_steps keeps.good keeps.caps keeps.maps enough) ?_ ?_
  · rintro removed t' ⟨same, ⟨absent, rfl, -⟩ | ⟨-, updated⟩⟩
    · refine ⟨same, rfl, own, free, keeps.good, ?_, keeps.caps⟩
      rw [Function.update_eq_self_iff.mpr absent.symm]
      exact keeps.maps
    · exact ⟨same, updated.keeps keeps⟩
  · exact fun e t' updating => updating.2.left keeps.maps le_rfl

end Outcomes

end Gems.Index
