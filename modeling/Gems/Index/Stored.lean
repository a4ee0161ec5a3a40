import Gems.Index.BTree
import Gems.Lib.Lists

set_option autoImplicit false

namespace Gems.Index

open Lib

variable {K V : Type} [LinearOrder K] [FixedCodec K] [FixedCodec V]

structure LeafNode (read : Nat → List UInt8) (pageId : Nat) (lo hi : Option K)
    (entries : List (K × V)) (own : List Nat) : Prop where
  kind : nodeType (read pageId) = .ok leafType
  decoded : decodeLeaf K V (read pageId) = .ok entries
  sorted : Sorted entries
  within : ∀ e ∈ entries, Within lo hi e.1
  own : own = [pageId]

structure InternalNode (tree : Holds K V Nat) (read : Nat → List UInt8) (pageId : Nat)
    (lo hi : Option K) (entries : List (K × V)) (own : List Nat) (keys : List K)
    (children owns : List Nat) : Prop where
  kind : nodeType (read pageId) = .ok internalType
  decoded : decodeInternal K (read pageId) = .ok (keys, children)
  row : Forest tree children keys lo hi entries owns
  own : own = pageId :: owns

/-- A tree in the pages of a file, with the pages it owns, no deeper than `depth`. -/
def Stored (read : Nat → List UInt8) : Nat → Holds K V Nat
  | 0 => fun _ _ _ _ _ => False
  | depth + 1 => fun pageId lo hi entries own =>
    LeafNode read pageId lo hi entries own ∨
      ∃ keys children owns,
        InternalNode (Stored read depth) read pageId lo hi entries own keys children owns

variable {read read' : Nat → List UInt8} {depth depth' pageId : Nat} {lo hi : Option K}
  {entries : List (K × V)} {own owns children : List Nat} {keys : List K} {key : K}

theorem LeafNode.stored (leaf : LeafNode read pageId lo hi entries own) :
    Stored read (depth + 1) pageId lo hi entries own := Or.inl leaf

theorem InternalNode.stored
    (node : InternalNode (Stored read depth) read pageId lo hi entries own keys children owns) :
    Stored (V := V) read (depth + 1) pageId lo hi entries own := Or.inr ⟨_, _, _, node⟩

theorem Stored.ordered : Ordered (Stored (K := K) (V := V) read depth) := by
  induction depth with
  | zero =>
    constructor
    · intro _ _ _ _ _ h
      exact h.elim
    · intro _ _ _ _ _ h
      exact h.elim
  | succ depth ih =>
    constructor
    · rintro c lo hi entries own (leaf | ⟨keys, children, owns, node⟩)
      · exact leaf.within
      · exact (node.row.ordered ih).1
    · rintro c lo hi entries own (leaf | ⟨keys, children, owns, node⟩)
      · exact leaf.sorted
      · exact (node.row.ordered ih).2

theorem Stored.self_mem (h : Stored read depth pageId lo hi entries own) : pageId ∈ own := by
  cases depth with
  | zero => exact h.elim
  | succ depth =>
    rcases h with leaf | ⟨keys, children, owns, node⟩
    · rw [leaf.own]
      exact List.mem_singleton_self _
    · rw [node.own]
      exact List.mem_cons_self

theorem Stored.carries (same : ∀ i ∈ own, read' i = read i) (deeper : depth ≤ depth') :
    Carries (Stored (K := K) (V := V) read depth) own (Stored read' depth') := by
  induction depth generalizing depth' own with
  | zero => exact fun _ _ _ _ _ h => h.elim
  | succ depth ih =>
    intro c lo hi entries part h sub
    obtain ⟨depth', rfl⟩ := Nat.exists_eq_add_of_le' deeper
    have here : read' c = read c := same c (sub (Stored.self_mem h))
    rcases h with leaf | ⟨keys, children, owns, node⟩
    · exact .inl { leaf with kind := here ▸ leaf.kind, decoded := here ▸ leaf.decoded }
    · have inside : ∀ i ∈ owns, read' i = read i := fun i mem =>
        same i (sub (node.own ▸ List.mem_cons_of_mem _ mem))
      refine .inr ⟨keys, children, owns, ?_⟩
      exact
        { kind := here ▸ node.kind
          decoded := here ▸ node.decoded
          row := node.row.carry (ih inside (Nat.le_of_succ_le_succ deeper))
          own := node.own }

theorem Stored.congr (h : Stored read depth pageId lo hi entries own)
    (same : ∀ i ∈ own, read' i = read i) (deeper : depth ≤ depth') :
    Stored read' depth' pageId lo hi entries own :=
  Stored.carries same deeper _ _ _ _ _ h (List.Subset.refl _)

namespace BTree

variable {p : Pager} {fuel : Nat}

theorem getLoop_spec (h : Stored (V := V) read depth pageId lo hi entries own)
    (pages : ∀ i ∈ own, p.page i = .ok (read i)) (within : Within lo hi key) (enough : depth ≤ fuel) :
    ∃ found, getLoop V p key fuel pageId = .ok found ∧ ∀ v, found = some v ↔ (key, v) ∈ entries := by
  induction fuel generalizing depth pageId lo hi entries own with
  | zero =>
    obtain rfl : depth = 0 := Nat.le_zero.mp enough
    exact h.elim
  | succ fuel ih =>
    cases depth with
    | zero => exact h.elim
    | succ depth =>
      rw [getLoop, pages pageId (Stored.self_mem h)]
      rcases h with leaf | ⟨keys, children, owns, node⟩
      · simp only [leaf.kind, leaf.decoded, bind, Except.bind, if_true, pure, Except.pure]
        refine ⟨_, rfl, fun v => ?_⟩
        cases search : binarySearch entries key with
        | ok idx =>
          obtain ⟨below, value, above, rfl, rfl, low, high⟩ := search_ok leaf.sorted search
          have notLow : (key, v) ∉ below := fun mem => (low _ mem).false
          have notHigh : (key, v) ∉ above := fun mem => (high _ mem).false
          simp [notLow, notHigh, eq_comm]
        | error idx =>
          obtain ⟨below, above, rfl, -, low, high⟩ := search_error leaf.sorted search
          have notLow : (key, v) ∉ below := fun mem => (low _ mem).false
          have notHigh : (key, v) ∉ above := fun mem => (high _ mem).false
          simp [notLow, notHigh]
      · have other : ¬ internalType = leafType := by decide
        obtain ⟨c, lo', hi', inner, innerOwn, before, after, ownBefore, ownAfter, focus⟩ :=
          node.row.focus Stored.ordered within
        have inside : innerOwn ⊆ own := by
          intro i mem
          rw [node.own, focus.pages]
          exact List.mem_cons_of_mem _ (List.mem_append_left _ (List.mem_append_right _ mem))
        obtain ⟨found, got, finds⟩ := ih focus.holds (fun i mem => pages i (inside mem)) focus.within
          (Nat.le_of_succ_le_succ enough)
        have child : child children (partitionPoint (fun k => decide (k ≤ key)) keys) = .ok c := by
          rw [BTree.child, focus.here]
        simp only [node.kind, node.decoded, bind, Except.bind, if_neg other, if_true, child, got]
        refine ⟨found, rfl, ?_⟩
        rw [focus.contents]
        exact finds_inside finds focus.below focus.above

theorem scanRec_spec (h : Stored (V := V) read depth pageId lo hi entries own)
    (pages : ∀ i ∈ own, p.page i = .ok (read i)) (enough : depth ≤ fuel) :
    scanRec K V p fuel pageId = .ok entries := by
  induction fuel generalizing depth pageId lo hi entries own with
  | zero =>
    obtain rfl : depth = 0 := Nat.le_zero.mp enough
    exact h.elim
  | succ fuel ih =>
    cases depth with
    | zero => exact h.elim
    | succ depth =>
      rw [scanRec, pages pageId (Stored.self_mem h)]
      rcases h with leaf | ⟨keys, children, owns, node⟩
      · simp only [leaf.kind, leaf.decoded, bind, Except.bind, if_true]
      · have other : ¬ internalType = leafType := by decide
        have row : ∃ parts, children.mapM (fun c => scanRec K V p fuel c) = .ok parts ∧
            parts.flatten = entries := by
          have inside : ∀ i ∈ owns, p.page i = .ok (read i) := fun i mem =>
            pages i (node.own ▸ List.mem_cons_of_mem _ mem)
          exact node.row.mapM_ok (fun entries _ => entries) (fun _ _ _ _ => rfl)
            fun _ _ _ _ _ holds sub =>
              ih holds (fun i mem => inside i (sub mem)) (Nat.le_of_succ_le_succ enough)
        obtain ⟨parts, scanned, flat⟩ := row
        simp only [node.kind, node.decoded, bind, Except.bind, if_neg other, if_true, scanned, flat, pure,
          Except.pure]

end BTree

end Gems.Index
