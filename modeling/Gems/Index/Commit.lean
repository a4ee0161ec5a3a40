import Gems.Index.Nodes

set_option autoImplicit false

namespace Gems.Index

open Lib Prog BTree

variable {os : PageSize} {m m' : Image} {t : BTree} {root : Nat} {own old lost free : List Nat}

/-- The file once the new root is in place: the pages `own` of its tree are as in `m`; of the retired
pages all but `lost` are free. -/
structure Committed (m : Image) (root : Nat) (own old : List Nat) (m' : Image) (lost : List Nat) :
    Prop where
  valid : m'.Valid
  swapped : Swapped m root (· ∈ own) m'
  free : (m'.free ++ lost).Perm (old ++ m.free)
  first : Swapped m root m.Used m' ∨ ∀ bytes ∈ m'.held 0, Version m' (· ∈ own) bytes

-- A commit that was cut short once the new root was in place.
def Landed (m : Image) (root : Nat) (own old : List Nat) (e : Fault) (t : BTree) : Prop :=
  ∃ h free lost, Cut e t.pager h free ∧ Committed m root own old (t.pager.file h free) lost

-- A commit that did not return.
def Committing (m : Image) (root : Nat) (own old : List Nat) (e : Fault) (t : BTree) : Prop :=
  Halt m e t.pager ∨ Landed m root own old e t

-- The loop over the retired pages; `rest` is still to be freed.
def Draining (m : Image) (root : Nat) (own old rest : List Nat) (t : BTree) : Prop :=
  t.pendingFree = [] ∧ ∃ free, Good t.pager free ∧ Committed m root own old (t.pager.image free) rest ∧
    t.pager.held 0 = [t.pager.bytes]

theorem Committed.later {c : Image} {lost lost' : List Nat} (committed : Committed m root own old c lost)
    (first : c.held 0 = [c.bytes]) (valid : m'.Valid)
    (swapped : Swapped c c.header.rootPage (· ∈ own) m')
    (free : (m'.free ++ lost').Perm (c.free ++ lost)) : Committed m root own old m' lost' where
  valid := valid
  swapped := by
    rw [committed.swapped.root] at swapped
    exact committed.swapped.trans swapped fun _ here => here
  free := free.trans committed.free
  first := by
    refine .inr fun bytes mem => ?_
    rcases swapped.held 0 bytes mem with before | version
    · rw [first] at before
      obtain rfl := List.mem_singleton.mp before
      exact swapped.version (committed.valid.version _)
    · exact version

theorem drain_step (start : m.Valid) (apart : (own ++ (old ++ m.free)).Nodup)
    (used : ∀ i ∈ own ++ old, m.Used i) {i : Nat} {rest : List Nat}
    (draining : Draining m root own old (i :: rest) t) :
    Spec (onPager (Pager.freePage os i)) t (fun _ => Draining m root own old rest)
      (Landed m root own old) := by
  obtain ⟨pending, free, good, committed, first⟩ := draining
  have perm := committed.free
  have mem : i ∈ old ++ m.free := perm.mem_iff.mp (List.mem_append_right _ List.mem_cons_self)
  obtain ⟨-, unique, other⟩ := List.nodup_append.mp apart
  have dead : i ∉ own := fun here => other i here i mem rfl
  have notFree : i ∉ free := fun here =>
    (List.nodup_append.mp (perm.nodup_iff.mpr unique)).2.2 i here i List.mem_cons_self rfl
  have inside : 1 ≤ i ∧ i < m.header.pageCount := by
    rcases List.mem_append.mp mem with retired | before
    · have here := used i (List.mem_append_right _ retired)
      exact ⟨here.1, here.2.1⟩
    · exact start.inside i before
  have here : (t.pager.image free).Used i :=
    ⟨inside.1, committed.swapped.count ▸ inside.2, notFree⟩
  refine spec_focus (spec_weaken (freePage_spec (· ∈ own) good here dead
    fun j mem => (used j (List.mem_append_left _ mem)).1) ?_ ?_)
  · rintro - p ⟨good', swapped, first'⟩
    exact ⟨pending, i :: free, good', committed.later first good'.valid swapped List.perm_middle.symm,
      first'⟩
  · rintro e p ⟨h, free', cut, valid, cases, swapped⟩
    rcases cases with rfl | rfl
    · exact ⟨h, _, i :: rest, cut, committed.later first valid swapped (.refl _)⟩
    · exact ⟨h, _, rest, cut, committed.later first valid swapped List.perm_middle.symm⟩

theorem freePending_spec {p : Pager} (start : m.Valid) (apart : (own ++ (old ++ m.free)).Nodup)
    (used : ∀ i ∈ own ++ old, m.Used i) (draining : Draining m root own old old ⟨p, []⟩) :
    Spec (freePending os) ⟨p, old⟩ (fun _ => Draining m root own old []) (Landed m root own old) := by
  refine spec_view_bind (spec_update_bind ?_)
  have loop : Spec (old.forM fun i => onPager (Pager.freePage os i)) ⟨p, []⟩
      (fun _ => Draining m root own old []) (Landed m root own old) :=
    spec_forM draining fun i rest t here => drain_step start apart used here
  exact loop

/-- From a new tree that nobody sees yet to its root, and from there to its commit. -/
theorem commit_parts (os : PageSize) {p : Pager} (good : Good p free) (whole : p.fileHeader = p.header)
    (small : root < 2 ^ 32) (apart : (own ++ (old ++ free)).Nodup) (used : ∀ i ∈ own ++ old, (p.image free).Used i) :
    Spec (onPager (Pager.writeRoot root)) ⟨p, old⟩
      (fun base t => Spec (onPager (Pager.finishRoot os base) >>= fun _ => freePending os) t
        (fun _ => Draining (p.image free) root own old []) (Landed (p.image free) root own old))
      (fun e t => Halt (p.image free) e t.pager) := by
  have own_used : ∀ i, i ∈ own → (p.image free).Used i := fun i mem =>
    used i (List.mem_append_left _ mem)
  refine spec_focus (spec_weaken (writeRoot_spec os good whole small) (fun base p' rest => ?_) fun _ _ halt => halt)
  have published : Spec (onPager (Pager.finishRoot os base)) ⟨p', old⟩
      (fun _ t => t.pendingFree = old ∧ Draining (p.image free) root own old old { t with pendingFree := [] })
      (Landed (p.image free) root own old) := by
    refine spec_focus (spec_weaken rest ?_ ?_)
    · rintro - p' ⟨good', swapped, first⟩
      refine ⟨rfl, rfl, free, good', ?_, first⟩
      exact
        { valid := good'.valid
          swapped := swapped.fewer own_used
          free := List.perm_append_comm
          first := .inl swapped }
    · rintro e p' ⟨h, cut, valid, swapped⟩
      refine ⟨h, free, old, cut, ?_⟩
      exact
        { valid := valid
          swapped := swapped.fewer own_used
          free := List.perm_append_comm
          first := .inl swapped }
  refine spec_bind published ?_
  rintro - ⟨p', pending⟩ ⟨rfl, draining⟩
  exact freePending_spec good.valid apart used draining

theorem onPager_bind {A B : Type} (m : Gems.Prog Pager A) (f : A → Gems.Prog Pager B) :
    onPager (m >>= f) = onPager m >>= fun a => onPager (f a) := by
  have get : ∀ (t : BTree) (pager : Pager), { t with pager }.pager = pager := fun _ _ => rfl
  have set : ∀ (t : BTree) (pager pager' : Pager),
      { { t with pager } with pager := pager' } = { t with pager := pager' } := fun _ _ _ => rfl
  exact focus_bind get set m f

end Gems.Index
