import Gems.Index.Commit
import Gems.Index.Delete

set_option autoImplicit false

namespace Gems.Index

open Lib Prog BTree

variable {K V : Type} [LinearOrder K] [FixedCodec K] [FixedCodec V]

/-- An index file that stores the map `map`. Every page but the header is in the tree, free or lost. -/
structure Maps (m : Image) (map : K → Option V) (depth : Nat) (own lost : List Nat) : Prop where
  valid : m.Valid
  tree : (m.header.rootPage = 0 ∧ own = [] ∧ Lists ([] : List (K × V)) map) ∨
    ∃ entries, Stored m.pageAt depth m.header.rootPage none none entries own ∧ Lists entries map
  pages : (own ++ (m.free ++ lost)).Perm (List.range' 1 (m.header.pageCount - 1))

/-- The new tree before its commit, beside the old one; `count` pages were taken for it. -/
structure Built (os : PageSize) (m : Image) (own : List Nat) (map : K → Option V) (depth count : Nat)
    (t : BTree) (free taken own' : List Nat) (newRoot : Nat) : Prop where
  progress : Progress os m t free taken
  tree : ∃ entries, Stored (t.pager.image free).pageAt depth newRoot none none entries own' ∧
    Lists entries map
  pages : (own' ++ t.pendingFree).Perm (own ++ taken)
  retired : t.pendingFree ⊆ own
  count : taken.length = count
  exposed : Exposed K V (t.pager.image free) taken [newRoot]
  whole : t.pager.fileHeader = t.pager.header

variable {os : PageSize} {m m' : Image} {t t' : BTree} {map map' : K → Option V} {p : Pager}
  {own own' lost free free' taken old pending : List Nat} {depth depth' count fuel newRoot : Nat} {key : K}
  {value : V} {e : Fault}

section Accounts

theorem Maps.used (maps : Maps m map depth own lost) : ∀ i ∈ own, m.Used i := by
  intro i mem
  have unique := maps.pages.nodup_iff.mpr List.nodup_range'
  have inside := List.mem_range'_1.mp (maps.pages.mem_iff.mp (List.mem_append_left _ mem))
  have count := maps.valid.count
  refine ⟨inside.1, by omega, fun here => ?_⟩
  exact (List.nodup_append.mp unique).2.2 i mem i (List.mem_append_left _ here) rfl

theorem Maps.nodup (maps : Maps m map depth own lost) : own.Nodup :=
  (List.nodup_append.mp (maps.pages.nodup_iff.mpr List.nodup_range')).1

theorem pages_grow {count count' : Nat} (positive : 1 ≤ count) (le : count ≤ count') :
    List.range' 1 (count' - 1) = List.range' 1 (count - 1) ++ List.range' count (count' - count) := by
  obtain ⟨more, rfl⟩ := Nat.exists_eq_add_of_le le
  rw [show count + more - 1 = count - 1 + more by omega, ← List.range'_append_1,
    show 1 + (count - 1) = count by omega, Nat.add_sub_cancel_left]

-- Pages that were only taken are lost.
theorem Moved.maps (maps : Maps m map depth own lost) (valid : m'.Valid) (moved : Moved m taken m') :
    Maps m' map depth own (taken ++ lost) where
  valid := valid
  tree := by
    rcases maps.tree with ⟨root, rfl, lists⟩ | ⟨entries, stored, lists⟩
    · exact .inl ⟨moved.root.trans root, rfl, lists⟩
    · refine .inr ⟨entries, ?_, lists⟩
      rw [moved.root]
      exact stored.congr (fun i mem => moved.same i (maps.used i mem)) le_rfl
  pages := by
    rw [pages_grow maps.valid.count moved.count]
    refine List.perm_iff_count.mpr fun a => ?_
    have before := List.perm_iff_count.mp maps.pages a
    have perm := List.perm_iff_count.mp (List.Perm.of_eq moved.order) a
    simp only [List.count_append] at before perm ⊢
    omega

theorem Built.used (maps : Maps m map depth own lost)
    (built : Built os m own map' depth' count t free taken own' newRoot) :
    ∀ i ∈ own' ++ t.pendingFree, (t.pager.image free).Used i :=
  built.progress.moved.toKept.used_pages maps.valid maps.used built.pages

-- The pages of the new tree, the retired ones and the free ones are apart.
theorem Built.apart (maps : Maps m map depth own lost)
    (built : Built os m own map' depth' count t free taken own' newRoot) :
    (own' ++ (t.pendingFree ++ free)).Nodup := by
  have kept := built.progress.moved.toKept
  have unique := kept.nodup maps.valid
  rw [← List.append_assoc]
  refine List.nodup_append.mpr ⟨built.pages.nodup_iff.mpr ?_, (List.nodup_append.mp unique).2.1, ?_⟩
  · refine List.nodup_append.mpr ⟨maps.nodup, (List.nodup_append.mp unique).1, ?_⟩
    rintro i before _ mem rfl
    exact (kept.mem_taken maps.valid mem).2 (maps.used i before)
  · rintro i mem _ here rfl
    exact (built.used maps i mem).2.2 here

theorem Committed.maps (maps : Maps m map depth own lost)
    (built : Built os m own map' depth' count t free taken own' newRoot) {lost' : List Nat}
    (committed : Committed (t.pager.image free) newRoot own' t.pendingFree m' lost') :
    Maps m' map' depth' own' (lost' ++ lost) where
  valid := committed.valid
  tree := by
    obtain ⟨entries, stored, lists⟩ := built.tree
    refine .inr ⟨entries, ?_, lists⟩
    rw [committed.swapped.root]
    exact stored.congr (fun i mem => committed.swapped.same i mem) le_rfl
  pages := by
    have moved := built.progress.moved
    rw [committed.swapped.count, pages_grow maps.valid.count moved.count]
    refine List.perm_iff_count.mpr fun a => ?_
    have before := List.perm_iff_count.mp maps.pages a
    have perm := List.perm_iff_count.mp (List.Perm.of_eq moved.order) a
    have new := List.perm_iff_count.mp built.pages a
    have freed := List.perm_iff_count.mp committed.free a
    simp only [List.count_append] at before perm new freed ⊢
    have same : (t.pager.image free).free = free := rfl
    rw [same] at freed perm
    omega

end Accounts

section Steps

-- How far an update came that returned, or that did not.
def Updated (os : PageSize) (m : Image) (own : List Nat) (map : K → Option V) (depth count : Nat)
    (t' : BTree) : Prop :=
  ∃ t free taken own' newRoot, Built os m own map depth count t free taken own' newRoot ∧
    Draining (t.pager.image free) newRoot own' t.pendingFree [] t'

def Updating (os : PageSize) (m : Image) (own : List Nat) (map : K → Option V) (depth count : Nat)
    (e : Fault) (t' : BTree) : Prop :=
  Halted m e t' ∨ ∃ t free taken own' newRoot, Built os m own map depth count t free taken own' newRoot ∧
    Committing (t.pager.image free) newRoot own' t.pendingFree e t'

-- An update that was stopped once its new root was in place.
def UpdateLanded (os : PageSize) (m : Image) (own : List Nat) (map : K → Option V) (depth count : Nat)
    (e : Fault) (t' : BTree) : Prop :=
  ∃ t free taken own' newRoot, Built os m own map depth count t free taken own' newRoot ∧
    Landed (t.pager.image free) newRoot own' t.pendingFree e t'

theorem UpdateLanded.updating {m : Image} {e : Fault} {t' : BTree} {count : Nat}
    (landed : UpdateLanded os m own map depth count e t') : Updating os m own map depth count e t' := by
  obtain ⟨t, free, taken, own', newRoot, built, landed⟩ := landed
  exact .inr ⟨t, free, taken, own', newRoot, built, .inr landed⟩

theorem update_parts (maps : Maps (p.image free) map depth own lost)
    (built : Built os (p.image free) own map' depth' count t free' taken own' newRoot) :
    Spec (onPager (Pager.writeRoot newRoot)) t
      (fun base t1 => Spec (onPager (Pager.finishRoot os base) >>= fun _ => freePending os) t1
        (fun _ t' => Updated os (p.image free) own map' depth' count t')
        (UpdateLanded os (p.image free) own map' depth' count))
      (Halted (p.image free)) := by
  obtain ⟨entries, stored, lists⟩ := built.tree
  have used := built.used maps
  have small : newRoot < 2 ^ 32 :=
    (used newRoot (List.mem_append_left _ stored.self_mem)).small built.progress.good.valid
  refine spec_weaken (commit_parts os built.progress.good built.whole small (built.apart maps) used) ?_ ?_
  · intro base t1 rest
    refine spec_weaken rest ?_ ?_
    · exact fun _ t' drained => ⟨t, free', taken, own', newRoot, built, drained⟩
    · exact fun e t' landed => ⟨t, free', taken, own', newRoot, built, landed⟩
  · exact fun e t' halt => halt.after built.progress.moved

theorem update_spec (maps : Maps (p.image free) map depth own lost)
    (built : Built os (p.image free) own map' depth' count t free' taken own' newRoot) :
    Spec (onPager (Pager.publishRoot os newRoot) >>= fun _ => freePending os) t
      (fun _ t' => Updated os (p.image free) own map' depth' count t')
      (Updating os (p.image free) own map' depth' count) := by
  rw [publishRoot_eq, onPager_bind, bind_assoc]
  exact spec_parts (update_parts maps built) (fun _ _ halted => .inl halted) fun _ _ landed => landed.updating

-- How many pages an insertion takes.
def insertCount (p : Pager) (fuel : Nat) (key : K) (value : V) : Nat :=
  if p.header.rootPage = 0 then 1
  else
    match insertNeeds p key value fuel p.header.rootPage with
    | .ok (below, split) => if split then below + 1 else below
    | .error _ => 0

variable (V) in
def deleteCount (p : Pager) (fuel : Nat) (key : K) : Nat :=
  if p.header.rootPage = 0 then 0
  else
    match deleteNeeds V p key fuel p.header.rootPage with
    | .ok below => below
    | .error _ => 0

theorem insertRoot_spec (good : Good p free) (caps : Capacities K V p.header.pageSize)
    (maps : Maps (p.image free) map depth own lost) (enough : depth ≤ fuel) :
    Spec (insertRoot os fuel key value p.header.rootPage) ⟨p, []⟩
      (fun newRoot t => ∃ free' taken own', Built os (p.image free) own
        (Function.update map key (some value)) (depth + 1) (insertCount p fuel key value) t free' taken
        own' newRoot)
      (Halted (p.image free)) := by
  have start := good.valid
  have everywhere : Within none none key := ⟨by simp, by simp⟩
  unfold insertRoot
  rcases maps.tree with ⟨root, rfl, lists⟩ | ⟨entries, stored, lists⟩
  · have empty : p.header.rootPage = 0 := root
    have fits : [(key, value)].length ≤
        leafCapacity p.header.pageSize (FixedCodec.len K) (FixedCodec.len V) := caps.leaf
    have sorted : Sorted [(key, value)] := List.pairwise_singleton _ _
    obtain ⟨page, encoded, length, made⟩ := leaf_page start caps fits
    rw [if_pos empty]
    refine newPage_spec start (.start good) encoded length ?_
    intro leafId t' free' pending progress same content
    refine spec_pure ⟨free', [leafId], [leafId], ?_⟩
    exact
      { progress := progress
        tree := ⟨_, (made _ _ none none content sorted (by simp [Within])).stored,
          lists.upsert sorted (by intro e; simp)⟩
        pages := by simp [pending]
        retired := by simp [pending]
        count := by rw [insertCount, if_pos empty]; rfl
        exposed := .self (List.Subset.refl _)
        whole := progress.whole (by simp) }
  · have present : p.header.rootPage ≠ 0 := by
      have inside := (maps.used _ stored.self_mem).1
      exact Nat.one_le_iff_ne_zero.mp inside
    rw [if_neg present]
    refine spec_bind (insertRec_spec good caps stored maps.used everywhere enough) ?_
    rintro outcome t1 ⟨old, free1, taken, entries', own', pending, needs, inserted⟩
    have counted : insertCount p fuel key value =
        if outcome.isSplit then taken.length + 1 else taken.length := by
      rw [insertCount, if_neg present, needs]
    have used := inserted.progress.moved.toKept.used_pages start maps.used inserted.pages
    rcases inserted with ⟨progress, @⟨c, _, _, new⟩ |
      @⟨left, right, sep, entriesL, entriesR, ownL, ownR, treeL, between, treeR⟩, upserted, pages, retired, exposed⟩
    · refine spec_pure ⟨free1, taken, own', ?_⟩
      exact
        { progress := progress
          tree := ⟨entries', new.congr (fun _ _ => rfl) (Nat.le_succ _),
            lists.upsert (Stored.ordered.sorted new) upserted⟩
          pages := by rw [pending]; exact pages
          retired := by rw [pending]; exact retired
          count := counted.symm
          exposed := exposed
          whole := progress.whole fun none => insertNeeds_pos needs (List.length_eq_zero_iff.mpr none) }
    · have row : Forest (Stored (V := V) (t1.pager.image free1).pageAt depth) [left, right] [sep] none none
          (entriesL ++ entriesR) (ownL ++ ownR) := .cons treeL between (.one treeR)
      refine newInternal_spec start progress caps row
        (fun i mem => used i (List.mem_append_left _ mem)) caps.internal exposed (List.Subset.refl _) ?_
      intro newRoot t' free' pending' progress' stored' exposed'
      refine spec_pure ⟨free', taken ++ [newRoot], newRoot :: (ownL ++ ownR), ?_⟩
      exact
        { progress := progress'
          tree := ⟨entriesL ++ entriesR, stored', lists.upsert (Stored.ordered.sorted stored') upserted⟩
          pages := by
            rw [pending', pending]
            refine List.perm_iff_count.mpr fun a => ?_
            have count := List.perm_iff_count.mp pages a
            simp only [List.count_append, List.count_cons, List.count_nil] at count ⊢
            omega
          retired := by rw [pending', pending]; exact retired
          count := by rw [counted, List.length_append]; rfl
          exposed := exposed'
          whole := progress'.whole (by simp) }

-- An insertion until its root is in the file.
def BTree.untilRoot (os : PageSize) (fuel : Nat) (key : K) (value : V) : Gems.Prog BTree Nat := do
  update fun t => { t with pendingFree := [] }
  let t ← view
  let newRoot ← insertRoot os fuel key value t.pager.header.rootPage
  onPager (Pager.writeRoot newRoot)

def BTree.afterRoot (os : PageSize) (base : Nat) : Gems.Prog BTree Unit := do
  onPager (Pager.finishRoot os base)
  freePending os

theorem insert_eq (os : PageSize) (fuel : Nat) (key : K) (value : V) :
    BTree.insert os fuel key value = BTree.untilRoot os fuel key value >>= BTree.afterRoot os := by
  rw [BTree.insert, BTree.untilRoot]
  simp only [bind_assoc, publishRoot_eq, onPager_bind]
  rfl

theorem insert_parts (os : PageSize) (good : Good p free) (caps : Capacities K V p.header.pageSize)
    (maps : Maps (p.image free) map depth own lost) (enough : depth ≤ fuel) :
    Spec (BTree.untilRoot os fuel key value) ⟨p, pending⟩
      (fun base t1 => Spec (BTree.afterRoot os base) t1
        (fun _ t' => Updated os (p.image free) own (Function.update map key (some value)) (depth + 1)
          (insertCount p fuel key value) t')
        (UpdateLanded os (p.image free) own (Function.update map key (some value)) (depth + 1)
          (insertCount p fuel key value)))
      (Halted (p.image free)) := by
  refine spec_update_bind (spec_view_bind ?_)
  refine spec_bind (spec_weaken (insertRoot_spec good caps maps enough) (fun _ _ here => here)
    fun _ _ halt => halt) ?_
  rintro newRoot t1 ⟨free1, taken, own', built⟩
  exact update_parts maps built

theorem insert_steps (good : Good p free) (caps : Capacities K V p.header.pageSize)
    (maps : Maps (p.image free) map depth own lost) (enough : depth ≤ fuel) :
    Spec (BTree.insert os fuel key value) ⟨p, pending⟩
      (fun _ t' => Updated os (p.image free) own (Function.update map key (some value)) (depth + 1)
        (insertCount p fuel key value) t')
      (Updating os (p.image free) own (Function.update map key (some value)) (depth + 1)
        (insertCount p fuel key value)) := by
  rw [insert_eq]
  exact spec_parts (insert_parts os good caps maps enough) (fun _ _ halted => .inl halted)
    fun _ _ landed => landed.updating

theorem Deleted.built {entries entries' : List (K × V)} {old : List Nat}
    (deleted : Deleted os (p.image free) depth none none key entries own newRoot old t free' taken entries' own')
    (present : p.header.rootPage ≠ 0) (lists : Lists entries map) (pending : t.pendingFree = [] ++ old)
    (needs : deleteNeeds V p key fuel p.header.rootPage = .ok taken.length) :
    Built os (p.image free) own (Function.update map key none) depth (deleteCount V p fuel key) t free' taken own'
      newRoot where
  progress := deleted.progress
  tree := ⟨entries', deleted.stored, lists.remove (Stored.ordered.sorted deleted.stored) deleted.removed⟩
  pages := by
    rw [pending]
    exact deleted.pages
  retired := by
    rw [pending]
    exact deleted.retired
  count := by rw [deleteCount, if_neg present, needs]
  exposed := deleted.exposed
  whole := deleted.progress.whole (List.ne_nil_of_mem deleted.fresh)

-- A delete of an absent key writes nothing.
theorem delete_steps (good : Good p free) (caps : Capacities K V p.header.pageSize)
    (maps : Maps (p.image free) map depth own lost) (enough : depth ≤ fuel) :
    Spec (BTree.delete V os fuel key) ⟨p, pending⟩
      (fun removed t' => removed = map key ∧
        ((map key = none ∧ t' = ⟨p, []⟩ ∧ deleteCount V p fuel key = 0) ∨ (∃ v, map key = some v) ∧
          Updated os (p.image free) own (Function.update map key none) depth (deleteCount V p fuel key)
            t'))
      (fun e t' => (∃ v, map key = some v) ∧ Updating os (p.image free) own
        (Function.update map key none) depth (deleteCount V p fuel key) e t') := by
  have start := good.valid
  have everywhere : Within none none key := ⟨by simp, by simp⟩
  refine spec_update_bind (spec_view_bind ?_)
  dsimp only
  rcases maps.tree with ⟨root, rfl, lists⟩ | ⟨entries, stored, lists⟩
  · have absent : map key = none := by
      have finds : ∀ v, (none : Option V) = some v ↔ (key, v) ∈ ([] : List (K × V)) := by simp
      exact (lists.lookup finds).symm
    have empty : p.header.rootPage = 0 := root
    rw [if_pos empty]
    exact spec_pure ⟨absent.symm, .inl ⟨absent, rfl, if_pos empty⟩⟩
  · have present : p.header.rootPage ≠ 0 := by
      have inside := (maps.used _ stored.self_mem).1
      exact Nat.one_le_iff_ne_zero.mp inside
    have known {v : V} (mem : (key, v) ∈ entries) : map key = some v := (lists.mem_iff key v).mp mem
    rw [if_neg present]
    refine spec_bind (spec_weaken (deleteRec_spec good caps stored maps.used everywhere enough)
      (fun _ _ here => here) fun _ _ halt => ⟨halt.1.imp fun v mem => known mem, Or.inl halt.2⟩) ?_
    rintro ⟨newRoot, removed⟩ t1 (⟨same, rfl, absent, needs⟩ |
      ⟨v, old, free1, taken, entries', own', rfl, mem, pending1, needs, deleted⟩)
    · obtain ⟨rfl, rfl⟩ := Prod.mk.inj same
      have gone : map key = none := by
        have finds : ∀ v, (none : Option V) = some v ↔ (key, v) ∈ entries := by simpa using absent
        exact (lists.lookup finds).symm
      dsimp only
      rw [if_neg (by simp)]
      exact spec_pure ⟨gone.symm, .inl ⟨gone, rfl, by rw [deleteCount, if_neg present, needs]⟩⟩
    · have changed : newRoot ≠ p.header.rootPage := by
        rintro rfl
        exact (deleted.progress.moved.toKept.mem_taken start deleted.fresh).2
          (maps.used _ stored.self_mem)
      have built := deleted.built present lists pending1 needs
      dsimp only
      rw [if_pos changed]
      have committed := spec_weaken (update_spec maps built) (fun _ _ here => here)
        fun _ _ halt => (⟨⟨v, known mem⟩, halt⟩ : (∃ v, map key = some v) ∧ _)
      rw [← bind_assoc]
      refine spec_bind committed fun _ t' here => ?_
      exact spec_pure ⟨(known mem).symm, .inr ⟨⟨v, known mem⟩, here⟩⟩

-- A deletion until its root is in the file; nothing is written when the key is not there.
def BTree.untilErased (V : Type) [FixedCodec V] (os : PageSize) (fuel : Nat) (key : K) :
    Gems.Prog BTree (Option V × Option Nat) := do
  update fun t => { t with pendingFree := [] }
  let t ← view
  let root := t.pager.header.rootPage
  if root = 0 then pure (none, none)
  else
    let (newRoot, removed) ← deleteRec V os key fuel root
    if newRoot ≠ root then
      let base ← onPager (Pager.writeRoot newRoot)
      pure (removed, some base)
    else pure (removed, none)

def BTree.afterErased (V : Type) (os : PageSize) (erased : Option V × Option Nat) : Gems.Prog BTree (Option V) :=
  match erased.2 with
  | some base => BTree.afterRoot os base >>= fun _ => pure erased.1
  | none => pure erased.1

theorem delete_eq (V : Type) [FixedCodec V] (os : PageSize) (fuel : Nat) (key : K) :
    BTree.delete V os fuel key = BTree.untilErased V os fuel key >>= BTree.afterErased V os := by
  rw [BTree.delete, BTree.untilErased]
  simp only [bind_assoc]
  congr 1
  funext _
  congr 1
  funext t
  split
  next => rfl
  next =>
    simp only [bind_assoc]
    congr 1
    funext ⟨newRoot, removed⟩
    dsimp only
    split
    next => simp only [publishRoot_eq, onPager_bind, bind_assoc, BTree.afterErased, BTree.afterRoot, pure_bind]
    next => rfl

theorem untilErased_spec (good : Good p free) (caps : Capacities K V p.header.pageSize)
    (maps : Maps (p.image free) map depth own lost) (enough : depth ≤ fuel) :
    Spec (BTree.untilErased V os fuel key) ⟨p, pending⟩ (fun _ _ => True) (Halted (p.image free)) := by
  have everywhere : Within none none key := ⟨by simp, by simp⟩
  refine spec_update_bind (spec_view_bind ?_)
  dsimp only
  rcases maps.tree with ⟨root, rfl, lists⟩ | ⟨entries, stored, lists⟩
  · have empty : p.header.rootPage = 0 := root
    rw [if_pos empty]
    exact spec_pure trivial
  · have present : p.header.rootPage ≠ 0 := by
      have inside := (maps.used _ stored.self_mem).1
      exact Nat.one_le_iff_ne_zero.mp inside
    rw [if_neg present]
    refine spec_bind (spec_weaken (deleteRec_spec good caps stored maps.used everywhere enough)
      (fun _ _ here => here) fun _ _ halt => halt.2) ?_
    rintro ⟨newRoot, removed⟩ t1 (⟨same, rfl, -, -⟩ |
      ⟨v, old, free1, taken, entries', own', rfl, mem, pending1, needs, deleted⟩)
    · obtain ⟨rfl, rfl⟩ := Prod.mk.inj same
      dsimp only
      rw [if_neg (by simp)]
      exact spec_pure trivial
    · dsimp only
      split
      next =>
        have built := deleted.built present lists pending1 needs
        refine spec_bind (spec_weaken (update_parts maps built) (fun _ _ _ => trivial) fun _ _ halt => halt) ?_
        exact fun _ _ _ => spec_pure trivial
      next => exact spec_pure trivial

end Steps

end Gems.Index
