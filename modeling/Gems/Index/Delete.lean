import Gems.Index.Insert

set_option autoImplicit false

namespace Gems.Index

open Lib Prog BTree

variable {K V : Type} [LinearOrder K] [FixedCodec K] [FixedCodec V]

variable {os : PageSize} {m : Image} {t t' : BTree} {taken free free' : List Nat} {i pageId : Nat}
  {depth fuel : Nat} {lo hi : Option K} {entries : List (K × V)} {own : List Nat} {key : K}

variable (V) in
-- How many pages a deletion takes below a page; none when the key is absent.
def deleteNeeds (p : Pager) (key : K) : Nat → Nat → Except Fault Nat
  | 0, _ => .error .unfinished
  | fuel + 1, pageId => do
    let buf ← p.page pageId
    let kind ← nodeType buf
    if kind = leafType then
      let entries ← decodeLeaf K V buf
      match binarySearch entries key with
      | .ok _ => pure 1
      | .error _ => pure 0
    else
      let (keys, children) ← decodeInternal K buf
      let c ← child children (partitionPoint (fun k => decide (k ≤ key)) keys)
      let below ← deleteNeeds p key fuel c
      pure (if below = 0 then 0 else below + 1)

structure Deleted (os : PageSize) (m : Image) (depth : Nat) (lo hi : Option K) (key : K)
    (entries : List (K × V)) (own : List Nat) (newId : Nat) (old : List Nat) (t' : BTree)
    (free' taken : List Nat) (entries' : List (K × V)) (own' : List Nat) : Prop where
  progress : Progress os m t' free' taken
  stored : Stored (t'.pager.image free').pageAt depth newId lo hi entries' own'
  removed : Removed key entries entries'
  pages : (own' ++ old).Perm (own ++ taken)
  retired : old ⊆ own
  exposed : Exposed K V (t'.pager.image free') taken [newId]
  fresh : newId ∈ taken

-- What a deletion below the page comes to: nothing when the key is absent.
def DeletedBelow (os : PageSize) (p : Pager) (free pending : List Nat) (depth fuel pageId : Nat) (lo hi : Option K)
    (key : K) (entries : List (K × V)) (own : List Nat) (result : Nat × Option V) (t' : BTree) : Prop :=
  (result = (pageId, none) ∧ t' = ⟨p, pending⟩ ∧ (∀ v, (key, v) ∉ entries) ∧
      deleteNeeds V p key fuel pageId = .ok 0) ∨
    ∃ v old free' taken entries' own', result.2 = some v ∧ (key, v) ∈ entries ∧
      t'.pendingFree = pending ++ old ∧ deleteNeeds V p key fuel pageId = .ok taken.length ∧
      Deleted os (p.image free) depth lo hi key entries own result.1 old t' free' taken entries' own'

-- A deletion stops only where there is something to delete.
def DeletionHalted (m : Image) (key : K) (entries : List (K × V)) (e : Fault) (t' : BTree) : Prop :=
  (∃ v, (key, v) ∈ entries) ∧ Halted m e t'

theorem deleteNeeds_internal {p : Pager} {keys : List K} {children owns : List Nat} {c below : Nat} (good : Good p free)
    (self : (p.image free).Used pageId)
    (node : InternalNode (Stored (V := V) (p.image free).pageAt depth) (p.image free).pageAt pageId lo hi entries own
      keys children owns)
    (child : child children (partitionPoint (fun k => decide (k ≤ key)) keys) = .ok c)
    (needs : deleteNeeds V p key fuel c = .ok below) :
    deleteNeeds V p key (fuel + 1) pageId = .ok (if below = 0 then 0 else below + 1) := by
  have other : ¬ internalType = leafType := by decide
  rw [deleteNeeds, good.page self.2.1]
  simp only [node.kind, node.decoded, bind, Except.bind, if_neg other, child, needs, pure, Except.pure]

theorem deleteRec_leaf {p : Pager} {pending : List Nat} (good : Good p free) (caps : Capacities K V p.header.pageSize)
    (leaf : LeafNode (p.image free).pageAt pageId lo hi entries own) (used : ∀ i ∈ own, (p.image free).Used i) :
    Spec (deleteRec V os key (fuel + 1) pageId) ⟨p, pending⟩
      (DeletedBelow os p free pending (depth + 1) (fuel + 1) pageId lo hi key entries own)
      (DeletionHalted (p.image free) key entries) := by
  have self : (p.image free).Used pageId := used pageId (leaf.own ▸ List.mem_singleton_self _)
  have size : ((p.image free).pageAt pageId).length = p.header.pageSize := length_slice
  have fits := decodeLeaf_fits leaf.decoded
  rw [size] at fits
  have counted : deleteNeeds V p key (fuel + 1) pageId = match binarySearch entries key with
      | .ok _ => .ok 1
      | .error _ => .ok 0 := by
    rw [deleteNeeds, good.page self.2.1]
    simp only [leaf.kind, leaf.decoded, bind, Except.bind, if_true, pure, Except.pure]
  rw [deleteRec]
  refine spec_view_bind ?_
  rw [good.page self.2.1]
  refine spec_pure_bind ?_
  rw [leaf.kind]
  refine spec_pure_bind ?_
  rw [if_pos rfl, leaf.decoded]
  refine spec_pure_bind ?_
  split
  next idx search =>
    rw [search] at counted
    obtain ⟨below, above, rfl, -, low, high⟩ := search_error leaf.sorted search
    refine spec_pure (.inl ⟨rfl, rfl, fun v mem => ?_, counted⟩)
    rcases List.mem_append.mp mem with left | right
    · exact (low _ left).false
    · exact (high _ right).false
  next idx search =>
    rw [search] at counted
    obtain ⟨sorted, removed, v, found, mem⟩ := erase_spec leaf.sorted search
    have fewer : (entries.eraseIdx idx).length ≤ entries.length := List.length_eraseIdx_le _ _
    obtain ⟨page, encoded, length, made⟩ := leaf_page good.valid caps (fewer.trans fits)
    refine spec_weaken (newPage_spec good.valid (.start good) encoded length ?_) (fun _ _ here => here)
      fun _ _ halt => ⟨⟨v, mem⟩, halt⟩
    intro newId t' free' pending' progress same content
    refine spec_update_bind (spec_pure (.inr ?_))
    refine ⟨v, [pageId], free', [newId], entries.eraseIdx idx, [newId], by rw [found]; rfl, mem,
      by rw [pending'], counted, { progress with }, ?_, removed, ?_, ?_, ?_, List.mem_singleton_self _⟩
    · exact (made _ _ _ _ content sorted fun e inside => leaf.within e ((removed e).mp inside).2).stored
    · rw [leaf.own]
      exact List.perm_append_comm
    · rw [leaf.own]
      exact List.Subset.refl _
    · exact .self (List.Subset.refl _)

theorem deleteRec_internal {p : Pager} {pending : List Nat} {keys : List K} {children owns : List Nat}
    (good : Good p free) (caps : Capacities K V p.header.pageSize)
    (node : InternalNode (Stored (V := V) (p.image free).pageAt depth) (p.image free).pageAt pageId lo hi entries own
      keys children owns)
    (used : ∀ i ∈ own, (p.image free).Used i) (within : Within lo hi key)
    (below : ∀ {c lo' hi' inner innerOwn}, Stored (V := V) (p.image free).pageAt depth c lo' hi' inner innerOwn →
      (∀ i ∈ innerOwn, (p.image free).Used i) → Within lo' hi' key →
      Spec (deleteRec V os key fuel c) ⟨p, pending⟩
        (DeletedBelow os p free pending depth fuel c lo' hi' key inner innerOwn)
        (DeletionHalted (p.image free) key inner)) :
    Spec (deleteRec V os key (fuel + 1) pageId) ⟨p, pending⟩
      (DeletedBelow os p free pending (depth + 1) (fuel + 1) pageId lo hi key entries own)
      (DeletionHalted (p.image free) key entries) := by
  have self : (p.image free).Used pageId := used pageId (node.own ▸ List.mem_cons_self)
  obtain ⟨fits, usedOwns, c, lo', hi', inner, innerOwn, before, after, ownBefore, ownAfter, focus, child, usedInner⟩ :=
    node.descend good used within
  have other : ¬ internalType = leafType := by decide
  have inner_sub : ∀ e, e ∈ inner → e ∈ entries := fun e mem => by
    rw [focus.contents]
    exact List.mem_append_left _ (List.mem_append_right _ mem)
  rw [deleteRec]
  refine spec_view_bind ?_
  rw [good.page self.2.1]
  refine spec_pure_bind ?_
  rw [node.kind]
  refine spec_pure_bind ?_
  rw [if_neg other, node.decoded]
  refine spec_pure_bind ?_
  dsimp only
  rw [child]
  refine spec_pure_bind (spec_bind (spec_weaken (below focus.holds usedInner focus.within) (fun _ _ here => here)
    fun _ _ halt => ⟨halt.1.imp fun v mem => inner_sub _ mem, halt.2⟩) ?_)
  rintro ⟨newChildId, result⟩ t1 (⟨same, rfl, absent, needs⟩ |
    ⟨v, old, free1, taken, entries', own', rfl, mem, pending1, needs, deleted⟩)
  · obtain ⟨rfl, rfl⟩ := Prod.mk.inj same
    dsimp only
    rw [if_pos rfl]
    refine spec_pure (.inl ⟨rfl, rfl, fun v mem => absent v ?_, deleteNeeds_internal good self node child needs⟩)
    have finds : ∀ v, (none : Option V) = some v ↔ (key, v) ∈ inner := by simpa using absent
    rw [focus.contents] at mem
    exact absurd ((finds_inside finds focus.below focus.above v).mpr mem) (by simp)
  · have moved := deleted.progress.moved
    have carries : Carries (Stored (K := K) (V := V) (p.image free).pageAt depth) owns
        (Stored (t1.pager.image free1).pageAt depth) :=
      Stored.carries (fun i mem => moved.same i (usedOwns i mem)) le_rfl
    have usedOwn := siblings_used focus moved usedOwns fun i mem =>
      moved.toKept.used_pages good.valid usedInner deleted.pages i (List.mem_append_left _ mem)
    have idx := (List.getElem?_eq_some_iff.mp focus.here).1
    -- The child's new page is fresh, so the parent is rewritten as well.
    have changed : newChildId ≠ c := by
      rintro rfl
      exact (moved.toKept.mem_taken good.valid deleted.fresh).2 (usedInner _ focus.holds.self_mem)
    have linked : [newChildId] ⊆ children.set (partitionPoint (fun k => decide (k ≤ key)) keys) newChildId := by
      intro i mem
      obtain rfl := List.mem_singleton.mp mem
      exact List.mem_set idx _
    dsimp only
    rw [if_neg changed]
    refine spec_weaken (newInternal_spec good.valid deleted.progress caps (focus.replace carries deleted.stored) usedOwn
      fits deleted.exposed linked ?_) (fun _ _ here => here) fun _ _ halt => ⟨⟨v, inner_sub _ mem⟩, halt⟩
    intro newId t' free' pending' progress' stored' exposed'
    refine spec_update_bind (spec_pure (.inr ?_))
    refine ⟨v, old ++ [pageId], free', taken ++ [newId], before ++ entries' ++ after, _, rfl,
      inner_sub _ mem, ?_, ?_, { progress' with }, stored', ?_, ?_, ?_, exposed', by simp⟩
    · rw [pending', pending1, List.append_assoc]
    · have some : taken.length ≠ 0 := fun none =>
        List.not_mem_nil (List.eq_nil_of_length_eq_zero none ▸ deleted.fresh)
      rw [deleteNeeds_internal good self node child needs, List.length_append, if_neg some]
      rfl
    · exact focus.contents ▸ deleted.removed.inside focus.below focus.above
    · rw [node.own, focus.pages]
      exact retire_pages [newId] deleted.pages pageId
    · exact retired_below node focus deleted.retired

/-- Deletion below a page: the tree without the key, and what was taken and retired for it. -/
theorem deleteRec_spec {p : Pager} {pending : List Nat} (good : Good p free) (caps : Capacities K V p.header.pageSize)
    (stored : Stored (V := V) (p.image free).pageAt depth pageId lo hi entries own)
    (used : ∀ i ∈ own, (p.image free).Used i) (within : Within lo hi key) (enough : depth ≤ fuel) :
    Spec (deleteRec V os key fuel pageId) ⟨p, pending⟩
      (DeletedBelow os p free pending depth fuel pageId lo hi key entries own)
      (DeletionHalted (p.image free) key entries) := by
  induction fuel generalizing depth pageId lo hi entries own with
  | zero =>
    obtain rfl : depth = 0 := Nat.le_zero.mp enough
    exact stored.elim
  | succ fuel ih =>
    cases depth with
    | zero => exact stored.elim
    | succ depth =>
      rcases stored with leaf | ⟨keys, children, owns, node⟩
      · exact deleteRec_leaf good caps leaf used
      · exact deleteRec_internal good caps node used within fun stored used within =>
          ih stored used within (Nat.le_of_succ_le_succ enough)

end Gems.Index
