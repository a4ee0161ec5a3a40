import Gems.Index.Nodes

set_option autoImplicit false

namespace Gems.Index

open Lib Prog BTree

variable {K V : Type} [LinearOrder K] [FixedCodec K] [FixedCodec V]

variable {os : PageSize} {m : Image} {t t' : BTree} {taken free free' : List Nat} {i j pageId : Nat}
  {read read' : Nat → List UInt8} {depth fuel : Nat} {lo hi : Option K} {entries : List (K × V)}
  {own owns children : List Nat} {keys : List K} {key : K} {value : V}

section Pages

theorem leaf_page (valid : m.Valid) (caps : Capacities K V m.header.pageSize)
    (fits : entries.length ≤ leafCapacity m.header.pageSize (FixedCodec.len K) (FixedCodec.len V)) :
    ∃ page, encodeLeaf m.header.pageSize entries = .ok page ∧ page.length = m.header.pageSize ∧
      ∀ read i lo hi, read i = page → Sorted entries → (∀ e ∈ entries, Within lo hi e.1) →
        LeafNode read i lo hi entries [i] := by
  have header : leafHeaderLen ≤ m.header.pageSize :=
    (show leafHeaderLen ≤ headerEncodedLen by decide).trans valid.size
  have small : entries.length < 65536 := Nat.lt_succ_of_le (fits.trans caps.leafSmall)
  obtain ⟨page, encoded, size, kind, decoded⟩ := encodeLeaf_ok fits header small
  refine ⟨page, encoded, size, fun read i lo hi content sorted within => ?_⟩
  exact
    { kind := content ▸ kind
      decoded := content ▸ decoded
      sorted := sorted
      within := within
      own := rfl }

omit [LinearOrder K] in
theorem internal_page (valid : m.Valid) (caps : Capacities K V m.header.pageSize)
    (fits : keys.length ≤ internalCapacity m.header.pageSize (FixedCodec.len K))
    (links : children.length = keys.length + 1) (ids : ∀ i ∈ children, i < 2 ^ 32) :
    ∃ page, encodeInternal m.header.pageSize keys children = .ok page ∧
      page.length = m.header.pageSize ∧ nodeType page = .ok internalType ∧
      decodeInternal K page = .ok (keys, children) := by
  have header : internalHeaderLen + 4 ≤ m.header.pageSize :=
    (show internalHeaderLen + 4 ≤ headerEncodedLen by decide).trans valid.size
  have small : keys.length < 65536 := Nat.lt_succ_of_le (fits.trans caps.internalSmall)
  exact encodeInternal_ok fits header small links ids

end Pages

inductive Rebuilt (read : Nat → List UInt8) (depth : Nat) (lo hi : Option K) :
    InsertOutcome K → List (K × V) → List Nat → Prop where
  | replaced {c : Nat} {entries : List (K × V)} {own : List Nat} :
    Stored read depth c lo hi entries own → Rebuilt read depth lo hi (.replaced c) entries own
  | split {left right : Nat} {sep : K} {entriesL entriesR : List (K × V)} {ownL ownR : List Nat} :
    Stored read depth left lo (some sep) entriesL ownL → Between lo hi sep →
    Stored read depth right (some sep) hi entriesR ownR →
    Rebuilt read depth lo hi (.split left sep right) (entriesL ++ entriesR) (ownL ++ ownR)

def InsertOutcome.roots : InsertOutcome K → List Nat
  | .replaced id => [id]
  | .split left _ right => [left, right]

def InsertOutcome.isSplit : InsertOutcome K → Bool
  | .replaced _ => false
  | .split _ _ _ => true

-- How many pages an insertion takes below a page, and whether that page is split.
def insertNeeds (p : Pager) (key : K) (value : V) : Nat → Nat → Except Fault (Nat × Bool)
  | 0, _ => .error .unfinished
  | fuel + 1, pageId => do
    let buf ← p.page pageId
    let kind ← nodeType buf
    if kind = leafType then
      let entries ← decodeLeaf K V buf
      if (upsert entries key value).length ≤
          leafCapacity p.header.pageSize (FixedCodec.len K) (FixedCodec.len V) then pure (1, false)
      else pure (2, true)
    else
      let (keys, children) ← decodeInternal K buf
      let c ← child children (partitionPoint (fun k => decide (k ≤ key)) keys)
      let (below, split) ← insertNeeds p key value fuel c
      if split = false ∨ keys.length + 1 ≤ internalCapacity p.header.pageSize (FixedCodec.len K) then
        pure (below + 1, false)
      else pure (below + 2, true)

theorem insertNeeds_pos {p : Pager} {count : Nat} {split : Bool}
    (needs : insertNeeds p key value fuel pageId = .ok (count, split)) : count ≠ 0 := by
  cases fuel with
  | zero => cases needs
  | succ fuel =>
    have ends {n : Nat} {b : Bool} (h : (Except.ok (n + 1, b) : Except Fault _) = .ok (count, split)) :
        count ≠ 0 := by
      cases h
      exact Nat.succ_ne_zero n
    simp only [insertNeeds, bind, Except.bind, pure, Except.pure] at needs
    repeat' split at needs
    all_goals first | exact ends needs | cases needs

/-- The key is inserted: the new tree and the retired pages share out the old tree's pages and the
pages taken. -/
structure Inserted (os : PageSize) (m : Image) (depth : Nat) (lo hi : Option K) (key : K) (value : V)
    (entries : List (K × V)) (own : List Nat) (outcome : InsertOutcome K) (old : List Nat) (t' : BTree)
    (free' taken : List Nat) (entries' : List (K × V)) (own' : List Nat) : Prop where
  progress : Progress os m t' free' taken
  rebuilt : Rebuilt (t'.pager.image free').pageAt depth lo hi outcome entries' own'
  upserted : Upserted key value entries entries'
  pages : (own' ++ old).Perm (own ++ taken)
  retired : old ⊆ own
  exposed : Exposed K V (t'.pager.image free') taken outcome.roots

-- What an insertion below the page comes to.
def InsertedBelow (os : PageSize) (p : Pager) (free pending : List Nat) (depth fuel pageId : Nat) (lo hi : Option K)
    (key : K) (value : V) (entries : List (K × V)) (own : List Nat) (outcome : InsertOutcome K) (t' : BTree) : Prop :=
  ∃ old free' taken entries' own', t'.pendingFree = pending ++ old ∧
    insertNeeds p key value fuel pageId = .ok (taken.length, outcome.isSplit) ∧
    Inserted os (p.image free) depth lo hi key value entries own outcome old t' free' taken entries' own'

theorem insertRec_leaf {p : Pager} {pending : List Nat} (good : Good p free)
    (caps : Capacities K V p.header.pageSize)
    (leaf : LeafNode (p.image free).pageAt pageId lo hi entries own)
    (used : ∀ i ∈ own, (p.image free).Used i) (within : Within lo hi key) :
    Spec (insertRec os key value (fuel + 1) pageId) ⟨p, pending⟩
      (InsertedBelow os p free pending (depth + 1) (fuel + 1) pageId lo hi key value entries own)
      (Halted (p.image free)) := by
  have start := good.valid
  have self : (p.image free).Used pageId := used pageId (leaf.own ▸ List.mem_singleton_self _)
  have size : ((p.image free).pageAt pageId).length = p.header.pageSize := length_slice
  have before := decodeLeaf_fits leaf.decoded
  obtain ⟨sorted, upserted, longer⟩ := upsert_spec leaf.sorted key value
  have inside : ∀ e ∈ upsert entries key value, Within lo hi e.1 := by
    intro e mem
    rcases (upserted e).mp mem with rfl | ⟨-, old⟩
    · exact within
    · exact leaf.within e old
  rw [insertRec]
  refine spec_view_bind ?_
  rw [good.page self.2.1]
  refine spec_pure_bind ?_
  rw [leaf.kind]
  refine spec_pure_bind ?_
  rw [if_pos rfl, leaf.decoded]
  refine spec_pure_bind ?_
  dsimp only
  have counted : insertNeeds p key value (fuel + 1) pageId =
      if (upsert entries key value).length ≤
          leafCapacity p.header.pageSize (FixedCodec.len K) (FixedCodec.len V) then .ok (1, false)
      else .ok (2, true) := by
    rw [insertNeeds, good.page self.2.1]
    simp only [leaf.kind, leaf.decoded, bind, Except.bind, if_true, pure, Except.pure]
  split
  next fits =>
    rw [if_pos fits] at counted
    obtain ⟨page, encoded, length, made⟩ := leaf_page start caps fits
    refine newPage_spec start (.start good) encoded length ?_
    intro newId t' free' pending' progress same content
    refine spec_update_bind (spec_pure ?_)
    refine ⟨[pageId], free', [newId], _, [newId], by rw [pending'], counted,
      { progress with }, ?_, upserted, ?_, ?_, ?_⟩
    · exact .replaced (made _ _ _ _ content sorted inside).stored
    · rw [leaf.own]
      exact List.perm_append_comm
    · rw [leaf.own]
      exact List.Subset.refl _
    · exact .self (List.Subset.refl _)
  next more =>
    rw [if_neg more] at counted
    have positive := caps.leaf
    rw [size] at before
    generalize upsert entries key value = after at sorted upserted longer inside more counted
    obtain ⟨first, sep, v, right, -, mem, above, cut, mem', sortedL, sortedR, low, high⟩ :=
      halve_spec (after.length / 2) sorted (by omega) (by omega)
    have fitsR : (after.drop (after.length / 2)).length ≤
        leafCapacity p.header.pageSize (FixedCodec.len K) (FixedCodec.len V) := by
      rw [List.length_drop]
      omega
    have fitsL : (after.take (after.length / 2)).length ≤
        leafCapacity p.header.pageSize (FixedCodec.len K) (FixedCodec.len V) := by
      rw [List.length_take]
      omega
    obtain ⟨pageR, encodedR, lengthR, madeR⟩ := leaf_page start caps fitsR
    obtain ⟨pageL, encodedL, lengthL, madeL⟩ := leaf_page start caps fitsL
    have between : Between lo hi sep :=
      ⟨fun l mem'' => ((inside first mem).1 l mem'').trans_lt above, (inside (sep, v) mem').2⟩
    have withinL : ∀ e ∈ after.take (after.length / 2), Within lo (some sep) e.1 := fun e here =>
      ⟨(inside e (List.mem_of_mem_take here)).1, fun h eq => Option.some.inj eq ▸ low e here⟩
    have withinR : ∀ e ∈ after.drop (after.length / 2), Within (some sep) hi e.1 := fun e here =>
      ⟨fun l eq => Option.some.inj eq ▸ high e here, (inside e (List.mem_of_mem_drop here)).2⟩
    rw [cut] at encodedR madeR sortedR withinR ⊢
    dsimp only
    refine newPages_spec start (.start good) encodedR lengthR encodedL lengthL ?_
    intro rightId leftId t' free' pending' progress same contentR contentL
    refine spec_update_bind (spec_pure ?_)
    refine ⟨[pageId], free', [rightId, leftId], after.take (after.length / 2) ++ (sep, v) :: right,
      [leftId, rightId], by rw [pending'], counted, { progress with }, ?_, ?_, ?_, ?_, ?_⟩
    · exact .split (madeL _ _ _ _ contentL sortedL withinL).stored between
        (madeR _ _ _ _ contentR sortedR withinR).stored
    · rwa [← cut, List.take_append_drop]
    · rw [leaf.own]
      refine List.perm_iff_count.mpr fun a => ?_
      simp only [List.count_append, List.count_cons, List.count_nil]
      omega
    · rw [leaf.own]
      exact List.Subset.refl _
    · exact .self (by simp [InsertOutcome.roots])

theorem Kept.used_pages {m' : Image} {old own' : List Nat} (valid : m.Valid) (kept : Kept m taken m')
    (used : ∀ i ∈ own, m.Used i) (pages : (own' ++ old).Perm (own ++ taken)) :
    ∀ i ∈ own' ++ old, m'.Used i := by
  intro i mem
  rcases List.mem_append.mp (pages.mem_iff.mp mem) with before | new
  · exact kept.used (used i before)
  · exact (kept.mem_taken valid new).1

section Internal

variable {B : Type} {ok : B → BTree → Prop} {roots : List Nat}

theorem internal_stored {page : List UInt8} {newId : Nat}
    (row : Forest (Stored (V := V) (t.pager.image free).pageAt depth) children keys lo hi entries owns)
    (used : ∀ i ∈ owns, (t.pager.image free).Used i) (same : Intact t t' free free')
    (kind : nodeType page = .ok internalType) (decoded : decodeInternal K page = .ok (keys, children))
    (content : (t'.pager.image free').pageAt newId = page) :
    Stored (t'.pager.image free').pageAt (depth + 1) newId lo hi entries (newId :: owns) := by
  subst content
  refine InternalNode.stored
    { kind := kind
      decoded := decoded
      row := row.carry (Stored.carries (fun i mem => (same i (used i mem)).2) le_rfl)
      own := rfl }

omit [FixedCodec K] [FixedCodec V] in
theorem children_small (valid : m.Valid) {tree : Holds K V Nat}
    (self : ∀ c lo hi entries own, tree c lo hi entries own → c ∈ own)
    (row : Forest tree children keys lo hi entries owns) (used : ∀ i ∈ owns, m.Used i) :
    ∀ i ∈ children, i < 2 ^ 32 := by
  intro i mem
  obtain ⟨lo', hi', entries', own', holds, sub⟩ := row.holds_of_mem mem
  exact (used i (sub (self _ _ _ _ _ holds))).small valid

theorem newInternal_spec (start : m.Valid) (progress : Progress os m t free taken)
    (caps : Capacities K V m.header.pageSize)
    (row : Forest (Stored (V := V) (t.pager.image free).pageAt depth) children keys lo hi entries owns)
    (used : ∀ i ∈ owns, (t.pager.image free).Used i)
    (fits : keys.length ≤ internalCapacity m.header.pageSize (FixedCodec.len K))
    (exposed : Exposed K V (t.pager.image free) taken roots) (linked : roots ⊆ children)
    {rest : Nat → Gems.Prog BTree B}
    (later : ∀ newId t' free', t'.pendingFree = t.pendingFree →
      Progress os m t' free' (taken ++ [newId]) →
      Stored (t'.pager.image free').pageAt (depth + 1) newId lo hi entries (newId :: owns) →
      Exposed K V (t'.pager.image free') (taken ++ [newId]) [newId] →
      Spec (rest newId) t' ok (Halted m)) :
    Spec (onPager (Pager.allocatePage os) >>= fun newId => putInternal newId keys children >>= fun _ =>
      rest newId) t ok (Halted m) := by
  have ids := children_small progress.good.valid (fun _ _ _ _ _ h => Stored.self_mem h) row used
  obtain ⟨page, encoded, length, kind, decoded⟩ := internal_page start caps fits row.length ids
  refine newPage_spec start progress encoded length ?_
  intro newId t' free' pending progress' same content
  refine later newId t' free' pending progress'
    (internal_stored row used same kind decoded content) ?_
  refine exposed.parents (fun i mem => ?_) fun root mem => ?_
  · exact (same i (progress.moved.toKept.mem_taken start mem).1).2
  · exact ⟨newId, List.mem_singleton_self _, keys, children, content ▸ kind, content ▸ decoded,
      linked mem⟩

-- A row too long for one node goes to two.
theorem newInternals_spec (start : m.Valid) (progress : Progress os m t free taken)
    (caps : Capacities K V m.header.pageSize)
    (row : Forest (Stored (V := V) (t.pager.image free).pageAt depth) children keys lo hi entries owns)
    (used : ∀ i ∈ owns, (t.pager.image free).Used i)
    (longer : keys.length ≤ internalCapacity m.header.pageSize (FixedCodec.len K) + 1)
    {mid : Nat} {sep : K} (here : keys[mid]? = some sep)
    (exposed : Exposed K V (t.pager.image free) taken roots) (linked : roots ⊆ children)
    {rest : Nat → Nat → Gems.Prog BTree B}
    (later : ∀ left right t' free' ownL ownR entriesL entriesR, t'.pendingFree = t.pendingFree →
      Progress os m t' free' (taken ++ [left, right]) →
      Stored (t'.pager.image free').pageAt (depth + 1) left lo (some sep) entriesL (left :: ownL) →
      Between lo hi sep →
      Stored (t'.pager.image free').pageAt (depth + 1) right (some sep) hi entriesR (right :: ownR) →
      entries = entriesL ++ entriesR → owns = ownL ++ ownR →
      Exposed K V (t'.pager.image free') (taken ++ [left, right]) [left, right] →
      Spec (rest left right) t' ok (Halted m)) :
    Spec (onPager (Pager.allocatePage os) >>= fun left => onPager (Pager.allocatePage os) >>= fun right =>
      putInternal left (keys.take mid) (children.take (mid + 1)) >>= fun _ =>
      putInternal right (keys.drop (mid + 1)) (children.drop (mid + 1)) >>= fun _ =>
      rest left right) t ok (Halted m) := by
  have inside : mid < keys.length := (List.getElem?_eq_some_iff.mp here).1
  obtain ⟨entriesL, entriesR, ownL, ownR, rowL, between, rowR, rfl, rfl⟩ := row.cut here
  have usedL : ∀ i ∈ ownL, (t.pager.image free).Used i := fun i mem =>
    used i (List.mem_append_left _ mem)
  have usedR : ∀ i ∈ ownR, (t.pager.image free).Used i := fun i mem =>
    used i (List.mem_append_right _ mem)
  have valid := progress.good.valid
  have idsL := children_small valid (fun _ _ _ _ _ h => Stored.self_mem h) rowL usedL
  have idsR := children_small valid (fun _ _ _ _ _ h => Stored.self_mem h) rowR usedR
  have fitsL : (keys.take mid).length ≤ internalCapacity m.header.pageSize (FixedCodec.len K) := by
    rw [List.length_take]
    omega
  have fitsR : (keys.drop (mid + 1)).length ≤
      internalCapacity m.header.pageSize (FixedCodec.len K) := by
    rw [List.length_drop]
    omega
  obtain ⟨pageL, encodedL, lengthL, kindL, decodedL⟩ := internal_page start caps fitsL rowL.length idsL
  obtain ⟨pageR, encodedR, lengthR, kindR, decodedR⟩ := internal_page start caps fitsR rowR.length idsR
  refine newPages_spec start progress encodedL lengthL encodedR lengthR ?_
  intro left right t' free' pending progress' same contentL contentR
  refine later left right t' free' ownL ownR entriesL entriesR pending progress'
    (internal_stored rowL usedL same kindL decodedL contentL) between
    (internal_stored rowR usedR same kindR decodedR contentR) rfl rfl ?_
  refine exposed.parents (fun i mem => ?_) fun root mem => ?_
  · exact (same i (progress.moved.toKept.mem_taken start mem).1).2
  · have child := linked mem
    rw [← List.take_append_drop (mid + 1) children] at child
    rcases List.mem_append.mp child with inL | inR
    · exact ⟨left, by simp, _, _, contentL ▸ kindL, contentL ▸ decodedL, inL⟩
    · exact ⟨right, by simp, _, _, contentR ▸ kindR, contentR ▸ decodedR, inR⟩

theorem InternalNode.descend {p : Pager} (good : Good p free)
    (node : InternalNode (Stored (V := V) (p.image free).pageAt depth) (p.image free).pageAt pageId lo hi
      entries own keys children owns)
    (used : ∀ i ∈ own, (p.image free).Used i) (within : Within lo hi key) :
    keys.length ≤ internalCapacity p.header.pageSize (FixedCodec.len K) ∧
      (∀ i ∈ owns, (p.image free).Used i) ∧
      ∃ c lo' hi' inner innerOwn before after ownBefore ownAfter,
        Focus (Stored (p.image free).pageAt depth) children keys lo hi entries owns key
          (partitionPoint (fun k => decide (k ≤ key)) keys) c lo' hi' inner innerOwn before after
          ownBefore ownAfter ∧
        child children (partitionPoint (fun k => decide (k ≤ key)) keys) = .ok c ∧
        ∀ i ∈ innerOwn, (p.image free).Used i := by
  have size : ((p.image free).pageAt pageId).length = p.header.pageSize := length_slice
  have header : internalHeaderLen + 4 ≤ ((p.image free).pageAt pageId).length := by
    rw [size]
    exact (show internalHeaderLen + 4 ≤ headerEncodedLen by decide).trans good.valid.size
  have fits := decodeInternal_fits node.decoded header
  rw [size] at fits
  have usedOwns : ∀ i ∈ owns, (p.image free).Used i := fun i mem =>
    used i (node.own ▸ List.mem_cons_of_mem _ mem)
  obtain ⟨c, lo', hi', inner, innerOwn, before, after, ownBefore, ownAfter, focus⟩ :=
    node.row.focus Stored.ordered within
  refine ⟨fits, usedOwns, c, lo', hi', inner, innerOwn, before, after, ownBefore, ownAfter, focus,
    by rw [BTree.child, focus.here], fun i mem => ?_⟩
  exact usedOwns i (focus.pages ▸ List.mem_append_left _ (List.mem_append_right _ mem))

-- The pages below an internal node after a change below one child.
omit [FixedCodec K] [FixedCodec V] in
theorem siblings_used {m' : Image} {tree : Holds K V Nat} {idx c : Nat} {lo' hi' : Option K}
    {inner before after : List (K × V)} {innerOwn own' ownBefore ownAfter : List Nat}
    (focus : Focus tree children keys lo hi entries owns key idx c lo' hi' inner innerOwn before after
      ownBefore ownAfter)
    (moved : Moved m taken m') (used : ∀ i ∈ owns, m.Used i) (new : ∀ i ∈ own', m'.Used i) :
    ∀ i ∈ ownBefore ++ own' ++ ownAfter, m'.Used i := by
  intro i mem
  have outside : i ∈ ownBefore ∨ i ∈ ownAfter → m'.Used i := fun mem =>
    moved.toKept.used (used i (by rw [focus.pages]; simp only [List.mem_append]; tauto))
  simp only [List.mem_append] at mem
  rcases mem with (mem | mem) | mem
  · exact outside (.inl mem)
  · exact new i mem
  · exact outside (.inr mem)

end Internal

omit [LinearOrder K] [FixedCodec K] in
theorem roots_linked {idx left right : Nat} {sep : K} (inside : idx < children.length) :
    (InsertOutcome.split left sep right).roots ⊆ (children.set idx left).insertIdx (idx + 1) right := by
  have room : idx + 1 ≤ (children.set idx left).length := by
    rw [List.length_set]
    exact inside
  intro i mem
  rw [List.mem_insertIdx room]
  rcases List.mem_cons.mp mem with rfl | mem
  · exact .inr (List.mem_set inside _)
  · exact .inl (List.mem_singleton.mp mem)

-- The accounts of an internal node, from those of the child.
theorem retire_pages {inner own' old before after : List Nat} (new : List Nat)
    (pages : (own' ++ old).Perm (inner ++ taken)) (pageId : Nat) :
    ((new ++ (before ++ own' ++ after)) ++ (old ++ [pageId])).Perm
      ((pageId :: (before ++ inner ++ after)) ++ (taken ++ new)) := by
  refine List.perm_iff_count.mpr fun a => ?_
  have count := List.perm_iff_count.mp pages a
  simp only [List.count_append, List.count_cons, List.count_nil] at count ⊢
  omega

omit [FixedCodec V] in
-- The pages retired below a child and the parent itself come from the old tree.
theorem retired_below {tree : Holds K V Nat} {read : Nat → List UInt8} {idx c : Nat}
    {lo' hi' : Option K} {inner before after : List (K × V)} {innerOwn ownBefore ownAfter old : List Nat}
    (node : InternalNode tree read pageId lo hi entries own keys children owns)
    (focus : Focus tree children keys lo hi entries owns key idx c lo' hi' inner innerOwn before after
      ownBefore ownAfter) (retired : old ⊆ innerOwn) : old ++ [pageId] ⊆ own := by
  have inside : innerOwn ⊆ own := fun i mem => by
    rw [node.own, focus.pages]
    exact List.mem_cons_of_mem _ (List.mem_append_left _ (List.mem_append_right _ mem))
  refine List.append_subset.mpr ⟨fun i mem => inside (retired mem), ?_⟩
  rw [node.own]
  simp

section Parent

variable {p : Pager} {pending old free1 innerOwn own' ownBefore ownAfter : List Nat} {c : Nat} {lo' hi' : Option K}
  {inner before after entries' : List (K × V)} {t1 : BTree} {outcome : InsertOutcome K} {keys' : List K}
  {children' : List Nat}

theorem insertNeeds_internal {split : Bool} (good : Good p free) (self : (p.image free).Used pageId)
    (node : InternalNode (Stored (V := V) (p.image free).pageAt depth) (p.image free).pageAt pageId lo hi entries own
      keys children owns)
    (child : child children (partitionPoint (fun k => decide (k ≤ key)) keys) = .ok c)
    (needs : insertNeeds p key value fuel c = .ok (taken.length, split)) :
    insertNeeds p key value (fuel + 1) pageId =
      if split = false ∨ keys.length + 1 ≤ internalCapacity p.header.pageSize (FixedCodec.len K) then
        .ok (taken.length + 1, false)
      else .ok (taken.length + 2, true) := by
  have other : ¬ internalType = leafType := by decide
  rw [insertNeeds, good.page self.2.1]
  simp only [node.kind, node.decoded, bind, Except.bind, if_neg other, child, needs, pure, Except.pure]

variable (good : Good p free) (caps : Capacities K V p.header.pageSize)
  (node : InternalNode (Stored (V := V) (p.image free).pageAt depth) (p.image free).pageAt pageId lo hi entries own
    keys children owns)
  (focus : Focus (Stored (p.image free).pageAt depth) children keys lo hi entries owns key
    (partitionPoint (fun k => decide (k ≤ key)) keys) c lo' hi' inner innerOwn before after ownBefore ownAfter)
  (inserted : Inserted os (p.image free) depth lo' hi' key value inner innerOwn outcome old t1 free1 taken entries'
    own')
  (freed : t1.pendingFree = pending ++ old)
  (row : Forest (Stored (V := V) (t1.pager.image free1).pageAt depth) children' keys' lo hi
    (before ++ entries' ++ after) (ownBefore ++ own' ++ ownAfter))
  (used : ∀ i ∈ ownBefore ++ own' ++ ownAfter, (t1.pager.image free1).Used i) (linked : outcome.roots ⊆ children')

-- The new nodes `new` stand above the child's new tree, and the old node is retired.
include node focus inserted freed in
theorem Inserted.above (new : List Nat) {own'' : List Nat} {outcome' : InsertOutcome K}
    (same : t'.pendingFree = t1.pendingFree)
    (counted : insertNeeds p key value (fuel + 1) pageId = .ok (taken.length + new.length, outcome'.isSplit))
    (progress : Progress os (p.image free) t' free' (taken ++ new))
    (rebuilt : Rebuilt (t'.pager.image free').pageAt (depth + 1) lo hi outcome' (before ++ entries' ++ after) own'')
    (pages : own''.Perm (new ++ (ownBefore ++ own' ++ ownAfter)))
    (exposed : Exposed K V (t'.pager.image free') (taken ++ new) outcome'.roots) :
    InsertedBelow os p free pending (depth + 1) (fuel + 1) pageId lo hi key value entries own outcome'
      { t' with pendingFree := t'.pendingFree ++ [pageId] } := by
  refine ⟨old ++ [pageId], free', taken ++ new, _, own'', ?_, ?_, { progress with }, rebuilt,
    focus.contents ▸ inserted.upserted.inside focus.below focus.above, ?_,
    retired_below node focus inserted.retired, exposed⟩
  · rw [same, freed, List.append_assoc]
  · rw [counted, List.length_append]
  · rw [node.own, focus.pages]
    exact (pages.append_right _).trans (retire_pages new inserted.pages pageId)

include good caps node focus inserted freed row used linked

theorem oneAbove_spec (few : keys'.length ≤ internalCapacity p.header.pageSize (FixedCodec.len K))
    (counted : insertNeeds p key value (fuel + 1) pageId = .ok (taken.length + 1, false)) :
    Spec (onPager (Pager.allocatePage os) >>= fun newId => putInternal newId keys' children' >>= fun _ =>
        retire pageId >>= fun _ => pure (.replaced newId)) t1
      (InsertedBelow os p free pending (depth + 1) (fuel + 1) pageId lo hi key value entries own)
      (Halted (p.image free)) := by
  refine newInternal_spec good.valid inserted.progress caps row used few inserted.exposed linked ?_
  intro newId t' free' same progress stored exposed
  refine spec_update_bind (spec_pure ?_)
  exact inserted.above node focus freed [newId] same counted progress (.replaced stored) (List.Perm.refl _) exposed

theorem twoAbove_spec {mid : Nat} {sep : K} (here : keys'[mid]? = some sep)
    (longer : keys'.length ≤ internalCapacity p.header.pageSize (FixedCodec.len K) + 1)
    (counted : insertNeeds p key value (fuel + 1) pageId = .ok (taken.length + 2, true)) :
    Spec (onPager (Pager.allocatePage os) >>= fun left => onPager (Pager.allocatePage os) >>= fun right =>
        putInternal left (keys'.take mid) (children'.take (mid + 1)) >>= fun _ =>
        putInternal right (keys'.drop (mid + 1)) (children'.drop (mid + 1)) >>= fun _ =>
        retire pageId >>= fun _ => pure (.split left sep right)) t1
      (InsertedBelow os p free pending (depth + 1) (fuel + 1) pageId lo hi key value entries own)
      (Halted (p.image free)) := by
  refine newInternals_spec good.valid inserted.progress caps row used longer here inserted.exposed linked ?_
  intro left right t' free' ownL ownR entriesL entriesR same progress treeL between treeR contents owned exposed
  refine spec_update_bind (spec_pure ?_)
  have rebuilt := Rebuilt.split treeL between treeR
  rw [← contents] at rebuilt
  refine inserted.above node focus freed [left, right] same counted progress rebuilt ?_ exposed
  rw [owned]
  exact List.Perm.cons _ List.perm_middle

end Parent

theorem insertRec_internal {p : Pager} {pending : List Nat} (good : Good p free)
    (caps : Capacities K V p.header.pageSize)
    (node : InternalNode (Stored (V := V) (p.image free).pageAt depth) (p.image free).pageAt pageId lo hi entries own
      keys children owns)
    (used : ∀ i ∈ own, (p.image free).Used i) (within : Within lo hi key)
    (below : ∀ {c lo' hi' inner innerOwn}, Stored (V := V) (p.image free).pageAt depth c lo' hi' inner innerOwn →
      (∀ i ∈ innerOwn, (p.image free).Used i) → Within lo' hi' key →
      Spec (insertRec os key value fuel c) ⟨p, pending⟩
        (InsertedBelow os p free pending depth fuel c lo' hi' key value inner innerOwn) (Halted (p.image free))) :
    Spec (insertRec os key value (fuel + 1) pageId) ⟨p, pending⟩
      (InsertedBelow os p free pending (depth + 1) (fuel + 1) pageId lo hi key value entries own)
      (Halted (p.image free)) := by
  have self : (p.image free).Used pageId := used pageId (node.own ▸ List.mem_cons_self)
  obtain ⟨fits, usedOwns, c, lo', hi', inner, innerOwn, before, after, ownBefore, ownAfter, focus, child, usedInner⟩ :=
    node.descend good used within
  have other : ¬ internalType = leafType := by decide
  rw [insertRec]
  refine spec_view_bind ?_
  rw [good.page self.2.1]
  refine spec_pure_bind ?_
  rw [node.kind]
  refine spec_pure_bind ?_
  rw [if_neg other, node.decoded]
  refine spec_pure_bind ?_
  dsimp only
  rw [child]
  refine spec_pure_bind (spec_bind (below focus.holds usedInner focus.within) ?_)
  rintro outcome t1 ⟨old, free1, taken, entries', own', freed, needs, inserted⟩
  have counted := insertNeeds_internal good self node child needs
  have moved := inserted.progress.moved
  have carries : Carries (Stored (K := K) (V := V) (p.image free).pageAt depth) owns
      (Stored (t1.pager.image free1).pageAt depth) :=
    Stored.carries (fun i mem => moved.same i (usedOwns i mem)) le_rfl
  have usedOwn := siblings_used focus moved usedOwns fun i mem =>
    moved.toKept.used_pages good.valid usedInner inserted.pages i (List.mem_append_left _ mem)
  have idx := (List.getElem?_eq_some_iff.mp focus.here).1
  cases inserted.rebuilt with
  | replaced new =>
    rw [if_pos (.inl rfl)] at counted
    exact oneAbove_spec good caps node focus inserted freed (focus.replace carries new) usedOwn
      (by simp [InsertOutcome.roots, List.mem_set, idx]) fits counted
  | @split left right sep entriesL entriesR ownL ownR treeL between treeR =>
    have row := focus.split carries treeL between treeR
    have inside : partitionPoint (fun k => decide (k ≤ key)) keys ≤ keys.length := by
      have length := node.row.length
      omega
    have longer := List.length_insertIdx_of_le_length inside sep
    dsimp only
    split
    next few =>
      rw [if_pos (.inr (longer ▸ few))] at counted
      exact oneAbove_spec good caps node focus inserted freed row usedOwn (roots_linked idx) few counted
    next many =>
      have positive := caps.internal
      have full : ¬ ((InsertOutcome.split left sep right).isSplit = false ∨
          keys.length + 1 ≤ internalCapacity p.header.pageSize (FixedCodec.len K)) := by
        rintro (same | room)
        · cases same
        · exact absurd (longer ▸ room) many
      rw [if_neg full] at counted
      split
      next none =>
        have := List.getElem?_eq_none_iff.mp none
        omega
      next sepUp here =>
        exact twoAbove_spec good caps node focus inserted freed row usedOwn (roots_linked idx) here
          (longer.le.trans (Nat.succ_le_succ fits)) counted

/-- Insertion below a page: the tree with the key, and what was taken and retired for it. -/
theorem insertRec_spec {p : Pager} {pending : List Nat} (good : Good p free)
    (caps : Capacities K V p.header.pageSize)
    (stored : Stored (V := V) (p.image free).pageAt depth pageId lo hi entries own)
    (used : ∀ i ∈ own, (p.image free).Used i) (within : Within lo hi key) (enough : depth ≤ fuel) :
    Spec (insertRec os key value fuel pageId) ⟨p, pending⟩
      (InsertedBelow os p free pending depth fuel pageId lo hi key value entries own) (Halted (p.image free)) := by
  induction fuel generalizing depth pageId lo hi entries own with
  | zero =>
    obtain rfl : depth = 0 := Nat.le_zero.mp enough
    exact stored.elim
  | succ fuel ih =>
    cases depth with
    | zero => exact stored.elim
    | succ depth =>
      rcases stored with leaf | ⟨keys, children, owns, node⟩
      · exact insertRec_leaf good caps leaf used within
      · exact insertRec_internal good caps node used within fun stored used within =>
          ih stored used within (Nat.le_of_succ_le_succ enough)

end Gems.Index
