import Gems.Index.BTree

set_option autoImplicit false

namespace Gems.Index

open Lib Prog

variable {os : PageSize} {k : Nat}

namespace Pager

-- The counters whose fields may run out.
def used (p : Pager) : Nat := max p.header.pageCount p.header.commitSeq

theorem raises_writeAt {start : Nat} {data : List UInt8} : Raises used 0 (writeAt start data) := by
  refine raises_view_bind fun p => ?_
  split
  next => exact raises_fail
  next => exact raises_write fun _ => le_rfl

theorem raises_writeHeader : Raises used 0 (writeHeader os) :=
  raises_view_bind fun _ => raises_still_bind raises_writeAt fun _ => raises_request fun _ => le_rfl

theorem raises_fillPage {pageId : Nat} {content : Except Fault (List UInt8)} :
    Raises used 0 (fillPage pageId content) := by
  refine raises_view_bind fun p => ?_
  split
  next => exact raises_fail
  next => exact raises_still_bind raises_ofResult fun _ => raises_write fun _ => le_rfl

theorem raises_freePage {pageId : Nat} : Raises used 0 (freePage os pageId) := by
  refine raises_view_bind fun p => ?_
  dsimp only
  split
  next => exact raises_fail
  next =>
    refine raises_still_bind (raises_write fun _ => le_rfl) fun _ => ?_
    exact raises_still_bind (raises_update fun _ => le_rfl) fun _ => raises_writeHeader

theorem raises_allocatePage : Raises used 1 (allocatePage os) := by
  refine raises_view_bind fun p => ?_
  split
  next =>
    refine raises_still_bind raises_ofResult fun buf => ?_
    refine raises_still_bind (raises_update fun _ => le_rfl) fun _ => raises_still_bind raises_writeHeader fun _ => ?_
    exact raises_still_bind raises_fillPage fun _ => raises_pure
  next =>
    refine raises_still_bind (raises_request fun _ => le_rfl) fun _ => ?_
    refine raises_still_bind (raises_update fun _ => le_rfl) fun _ => ?_
    split
    next => exact raises_fail
    next =>
      refine raises_bind (l := 0) (raises_update fun s => ?_) fun _ => ?_
      · simp only [used]
        omega
      · exact raises_still_bind raises_writeHeader fun _ => raises_pure

theorem raises_publishRoot {root : Nat} : Raises used 1 (publishRoot os root) := by
  refine raises_view_bind fun p => ?_
  split
  next => exact raises_fail
  next =>
    refine raises_bind (l := 0) (raises_update fun s => ?_) fun _ => ?_
    · simp only [used]
      omega
    · refine raises_still_bind raises_writeAt fun _ => ?_
      exact raises_still_bind (raises_request fun _ => le_rfl) fun _ => raises_writeHeader

theorem used_create {pageSize keyLen valueLen : Nat} {p : Pager}
    (created : create os pageSize keyLen valueLen = .ok p) : p.used ≤ 1 := by
  rw [create] at created
  split at created
  next => cases created
  next =>
    dsimp only at created
    split at created
    next p' made =>
      cases created
      exact raises_writeHeader.run made
    next => cases created

end Pager

namespace BTree

variable {K V : Type} [LinearOrder K] [FixedCodec K] [FixedCodec V] {key : K} {value : V} {fuel pageId : Nat}

def used (t : BTree) : Nat := t.pager.used

omit [LinearOrder K] in
theorem used_create {pageSize : Nat} {t : BTree} (created : create K V os pageSize = .ok t) : t.used ≤ 1 := by
  rw [create] at created
  cases made : Pager.create os pageSize (FixedCodec.len K % 2 ^ 16) (FixedCodec.len V % 2 ^ 16) with
  | error e =>
    rw [made] at created
    cases created
  | ok pager =>
    rw [made] at created
    cases created
    exact Pager.used_create made

theorem raises_onPager {A : Type} {m : Gems.Prog Pager A} (raises : Raises Pager.used k m) :
    Raises used k (onPager m) := raises_focus raises fun _ _ le => le

theorem raises_retire : Raises used 0 (retire pageId) := raises_update fun _ => le_rfl

theorem raises_putNode {encode : Nat → Except Fault (List UInt8)} : Raises used 0 (putNode pageId encode) :=
  raises_view_bind fun _ => raises_onPager Pager.raises_fillPage

theorem raises_allocate : Raises used 1 (onPager (Pager.allocatePage os)) := raises_onPager Pager.raises_allocatePage

-- A node is written anew.
theorem raises_again {A : Type} {new : A} {encode : Nat → Except Fault (List UInt8)} {newId : Nat} :
    Raises used 0 (putNode newId encode >>= fun _ => retire pageId >>= fun _ => pure new) :=
  raises_still_bind raises_putNode fun _ => raises_still_bind raises_retire fun _ => raises_pure

theorem raises_insertRec : Raises used (2 * fuel) (insertRec os key value fuel pageId) := by
  induction fuel generalizing pageId with
  | zero => exact raises_fail
  | succ fuel ih =>
    -- a level takes two pages at most
    have split {A : Type} {f : Nat → Nat → Gems.Prog BTree A} (rest : ∀ left right, Raises used 0 (f left right)) :
        Raises used 2 (onPager (Pager.allocatePage os) >>= fun left =>
          onPager (Pager.allocatePage os) >>= fun right => f left right) :=
      raises_bind raises_allocate fun left => raises_bind raises_allocate (rest left)
    have one {A : Type} {f : Nat → Gems.Prog BTree A} (rest : ∀ newId, Raises used 0 (f newId)) :
        Raises used 2 (onPager (Pager.allocatePage os) >>= f) :=
      (raises_bind raises_allocate rest).mono (by omega)
    refine raises_view_bind fun t => raises_still_bind raises_ofResult fun buf => ?_
    refine raises_still_bind raises_ofResult fun kind => ?_
    split
    next =>
      refine raises_still_bind raises_ofResult fun entries => ?_
      refine Raises.mono (k := 2) ?_ (by omega)
      dsimp only
      split
      next => exact one fun newId => raises_again
      next =>
        split
        next => exact raises_fail
        next => exact split fun rightId leftId => raises_still_bind raises_putNode fun _ => raises_again
    next =>
      refine raises_still_bind raises_ofResult fun node => raises_still_bind raises_ofResult fun childId => ?_
      refine Raises.mono (k := 2 * fuel + 2) (raises_bind ih fun outcome => ?_) (by omega)
      cases outcome with
      | replaced newChildId => exact one fun newId => raises_again
      | split left sep right =>
        dsimp only
        split
        next => exact one fun newId => raises_again
        next =>
          split
          next => exact raises_fail
          next => exact split fun leftId rightId => raises_still_bind raises_putNode fun _ => raises_again

theorem raises_freePending : Raises used 0 (freePending os) :=
  raises_view_bind fun _ => raises_still_bind (raises_update fun _ => le_rfl) fun _ =>
    raises_forM fun _ => raises_onPager Pager.raises_freePage

theorem raises_commit {root : Nat} :
    Raises used 1 (onPager (Pager.publishRoot os root) >>= fun _ => freePending os) :=
  raises_bind (raises_onPager Pager.raises_publishRoot) fun _ => raises_freePending

theorem raises_insertRoot {root : Nat} : Raises used (2 * fuel + 1) (insertRoot os fuel key value root) := by
  rw [insertRoot]
  split
  next =>
    refine (raises_bind raises_allocate fun leafId => ?_ : Raises used (1 + 0) _).mono (by omega)
    exact raises_still_bind raises_putNode fun _ => raises_pure
  next =>
    refine raises_bind raises_insertRec fun outcome => ?_
    cases outcome with
    | replaced id => exact raises_pure
    | split left sep right =>
      refine raises_bind (l := 0) raises_allocate fun newRootId => ?_
      exact raises_still_bind raises_putNode fun _ => raises_pure

/-- An insertion takes two pages a level, one for the root, and one commit number. -/
theorem raises_insert : Raises used (2 * fuel + 2) (insert os fuel key value) := by
  refine raises_still_bind (raises_update fun _ => le_rfl) fun _ => raises_view_bind fun t => ?_
  exact Raises.mono (k := 2 * fuel + 1 + 1) (raises_bind raises_insertRoot fun _ => raises_commit) le_rfl

theorem raises_deleteRec : Raises used fuel (deleteRec V os key fuel pageId) := by
  induction fuel generalizing pageId with
  | zero => exact raises_fail
  | succ fuel ih =>
    refine raises_view_bind fun t => raises_still_bind raises_ofResult fun buf => ?_
    refine raises_still_bind raises_ofResult fun kind => ?_
    split
    next =>
      refine raises_still_bind raises_ofResult fun entries => ?_
      split
      next => exact raises_pure
      next =>
        refine (raises_bind raises_allocate fun newId => ?_ : Raises used (1 + 0) _).mono (by omega)
        exact raises_again
    next =>
      refine raises_still_bind raises_ofResult fun node => raises_still_bind raises_ofResult fun childId => ?_
      refine raises_bind ih fun found => ?_
      dsimp only
      split
      next => exact raises_pure
      next => exact raises_bind (l := 0) raises_allocate fun newId => raises_again

theorem raises_delete : Raises used (fuel + 1) (delete V os fuel key) := by
  refine raises_still_bind (raises_update fun _ => le_rfl) fun _ => raises_view_bind fun t => ?_
  dsimp only
  split
  next => exact raises_pure
  next =>
    refine raises_bind raises_deleteRec fun found => ?_
    split
    next =>
      refine raises_bind (l := 0) (raises_onPager Pager.raises_publishRoot) fun _ => ?_
      exact raises_still_bind raises_freePending fun _ => raises_pure
    next => exact raises_pure

end BTree

end Gems.Index
