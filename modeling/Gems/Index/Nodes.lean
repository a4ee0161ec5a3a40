import Gems.Index.Pages
import Gems.Index.Stored

set_option autoImplicit false

namespace Gems.Index

open Lib Prog BTree

variable {K V : Type} [LinearOrder K] [FixedCodec K] [FixedCodec V]

structure Progress (os : PageSize) (m : Image) (t : BTree) (free taken : List Nat) : Prop where
  good : Good t.pager free
  moved : Moved m taken (t.pager.image free)
  blank : Blank os (t.pager.image free) taken
  whole : taken ≠ [] → t.pager.fileHeader = t.pager.header

def Halted (m : Image) (e : Fault) (t : BTree) : Prop := Halt m e t.pager

variable {os : PageSize} {m : Image} {t : BTree} {taken free : List Nat} {i j : Nat} {B : Type}
  {ok : B → BTree → Prop}

theorem Progress.start {p : Pager} {pendingFree : List Nat} (good : Good p free) :
    Progress os (p.image free) ⟨p, pendingFree⟩ free [] :=
  ⟨good, .refl _, by simp [Blank], fun some => absurd rfl some⟩

theorem Progress.size (progress : Progress os m t free taken) :
    t.pager.header.pageSize = m.header.pageSize := progress.moved.size

theorem Image.Used.small (valid : m.Valid) (used : m.Used i) : i < 2 ^ 32 :=
  used.2.1.trans valid.fits.pageCount

theorem allocate_spec (progress : Progress os m t free taken) :
    Spec (onPager (Pager.allocatePage os)) t
      (fun i t' => t'.pendingFree = t.pendingFree ∧ ∃ free', Progress os m t' free' (taken ++ [i]) ∧
        Moved (t.pager.image free) [i] (t'.pager.image free'))
      (Halted m) := by
  refine spec_focus (spec_weaken (allocatePage_spec progress.good) ?_ ?_)
  · rintro i p ⟨whole, free', good, moved, blank⟩
    exact ⟨rfl, free', ⟨good, progress.moved.trans moved, (progress.blank.later moved).append blank,
      fun _ => whole⟩, moved⟩
  · exact fun e p halt => halt.after progress.moved

variable {encode : Nat → Except Fault (List UInt8)} {page : List UInt8}

theorem putNode_spec (start : m.Valid) (progress : Progress os m t free taken) (mem : i ∈ taken)
    (encoded : encode m.header.pageSize = .ok page) (size : page.length = m.header.pageSize) :
    Spec (putNode i encode) t
      (fun _ t' => t'.pendingFree = t.pendingFree ∧ Progress os m t' free taken ∧
        (∀ i, (t'.pager.image free).Used i ↔ (t.pager.image free).Used i) ∧
        (t'.pager.image free).pageAt i = page ∧
        ∀ j, j ≠ i → (t'.pager.image free).pageAt j = (t.pager.image free).pageAt j)
      (Halted m) := by
  refine spec_view_bind (spec_focus ?_)
  rw [progress.size, encoded]
  refine spec_weaken (fillPage_spec os start progress.good progress.moved mem
    (size.trans progress.size.symm)) ?_ fun _ _ halt => halt
  rintro - p ⟨header, file, good, moved, -, held, content, same⟩
  refine ⟨rfl, ⟨good, moved, ?_, fun some => ?_⟩, fun i => ?_, content, same⟩
  · intro j mem large
    rw [show (p.image free).header = t.pager.fileHeader from file] at large ⊢
    obtain ⟨bytes, before, zero⟩ := progress.blank j mem large
    exact ⟨bytes, held _ _ before, zero⟩
  · exact file.trans ((progress.whole some).trans header.symm)
  · rw [Image.Used, Image.Used, show (p.image free).header = t.pager.fileHeader from file]
    rfl

def Intact (t t' : BTree) (free free' : List Nat) : Prop :=
  ∀ j, (t.pager.image free).Used j →
    (t'.pager.image free').Used j ∧ (t'.pager.image free').pageAt j = (t.pager.image free).pageAt j

theorem newPage_spec (start : m.Valid) (progress : Progress os m t free taken)
    (encoded : encode m.header.pageSize = .ok page) (size : page.length = m.header.pageSize)
    {rest : Nat → Gems.Prog BTree B}
    (later : ∀ i t' free', t'.pendingFree = t.pendingFree → Progress os m t' free' (taken ++ [i]) →
      Intact t t' free free' → (t'.pager.image free').pageAt i = page → Spec (rest i) t' ok (Halted m)) :
    Spec (onPager (Pager.allocatePage os) >>= fun i => putNode i encode >>= fun _ => rest i) t ok
      (Halted m) := by
  refine spec_bind (allocate_spec progress) ?_
  rintro i t1 ⟨pending, free', progress1, moved⟩
  refine spec_bind (putNode_spec start progress1 (by simp) encoded size) ?_
  rintro - t2 ⟨pending', progress2, used, content, same⟩
  refine later i t2 free' (pending'.trans pending) progress2 (fun j here => ?_) content
  have fresh := (moved.toKept.mem_taken progress.good.valid (List.mem_singleton_self i)).2
  have other : j ≠ i := fun same => fresh (same ▸ here)
  exact ⟨(used j).mpr (moved.toKept.used here), (same j other).trans (moved.same j here)⟩

-- Two new pages, both taken before the first is written.
theorem newPages_spec (start : m.Valid) (progress : Progress os m t free taken)
    {encode' : Nat → Except Fault (List UInt8)} {page' : List UInt8}
    (encoded : encode m.header.pageSize = .ok page) (size : page.length = m.header.pageSize)
    (encoded' : encode' m.header.pageSize = .ok page') (size' : page'.length = m.header.pageSize)
    {rest : Nat → Nat → Gems.Prog BTree B}
    (later : ∀ i j t' free', t'.pendingFree = t.pendingFree →
      Progress os m t' free' (taken ++ [i, j]) → Intact t t' free free' →
      (t'.pager.image free').pageAt i = page → (t'.pager.image free').pageAt j = page' →
      Spec (rest i j) t' ok (Halted m)) :
    Spec (onPager (Pager.allocatePage os) >>= fun i => onPager (Pager.allocatePage os) >>= fun j =>
      putNode i encode >>= fun _ => putNode j encode' >>= fun _ => rest i j) t ok (Halted m) := by
  refine spec_bind (allocate_spec progress) ?_
  rintro i t1 ⟨pending1, free1, progress1, moved1⟩
  refine spec_bind (allocate_spec progress1) ?_
  rintro j t2 ⟨pending2, free2, progress2, moved2⟩
  rw [List.append_assoc] at progress2
  refine spec_bind (putNode_spec start progress2 (by simp) encoded size) ?_
  rintro - t3 ⟨pending3, progress3, used3, content3, same3⟩
  refine spec_bind (putNode_spec start progress3 (by simp) encoded' size') ?_
  rintro - t4 ⟨pending4, progress4, used4, content4, same4⟩
  have first := moved1.toKept.mem_taken progress.good.valid (List.mem_singleton_self i)
  have second := moved2.toKept.mem_taken progress1.good.valid (List.mem_singleton_self j)
  have apart : i ≠ j := fun same => second.2 (same ▸ first.1)
  refine later i j t4 free2 (pending4.trans (pending3.trans (pending2.trans pending1))) progress4
    (fun k here => ?_) ((same4 i apart).trans content3) content4
  have kept := moved1.toKept.used here
  have otherI : k ≠ i := fun same => first.2 (same ▸ here)
  have otherJ : k ≠ j := fun same => second.2 (same ▸ kept)
  refine ⟨(used4 k).mpr ((used3 k).mpr (moved2.toKept.used kept)), ?_⟩
  rw [same4 k otherJ, same3 k otherI, moved2.same k kept, moved1.same k here]

section Exposed

variable (K V) in
def Reads (read : Nat → List UInt8) (pageId : Nat) : Prop :=
  ∃ depth lo hi, ∃ (entries : List (K × V)) (own : List Nat), Stored read depth pageId lo hi entries own

variable {read : Nat → List UInt8} {keys : List K} {children roots new : List Nat} {m' : Image}

theorem head_of_kind {buf : List UInt8} {kind : UInt8} (h : nodeType buf = .ok kind) :
    buf.head? = some kind := by
  cases buf with
  | nil => cases h
  | cons b rest => exact congrArg some (Except.ok.inj h)

theorem Reads.head (reads : Reads K V read i) : (read i).head? ≠ some 0 := by
  obtain ⟨depth, lo, hi, entries, own, stored⟩ := reads
  cases depth with
  | zero => exact stored.elim
  | succ depth =>
    rcases stored with leaf | ⟨_, _, _, node⟩
    · rw [head_of_kind leaf.kind]
      decide
    · rw [head_of_kind node.kind]
      decide

theorem Reads.child (reads : Reads K V read i) (kind : nodeType (read i) = .ok internalType)
    (decoded : decodeInternal K (read i) = .ok (keys, children)) (mem : j ∈ children) :
    Reads K V read j := by
  obtain ⟨depth, lo, hi, entries, own, stored⟩ := reads
  cases depth with
  | zero => exact stored.elim
  | succ depth =>
    rcases stored with leaf | ⟨keys', children', owns, node⟩
    · have same := leaf.kind.symm.trans kind
      exact absurd (Except.ok.inj same) (by decide)
    · obtain ⟨rfl, rfl⟩ := Prod.mk.inj (Except.ok.inj (node.decoded.symm.trans decoded))
      obtain ⟨lo', hi', entries', own', holds, -⟩ := node.row.holds_of_mem mem
      exact ⟨depth, lo', hi', entries', own', holds⟩

variable (K V) in
/-- A disk that lost the page `c` but has what was written after it holds no tree at the roots. -/
def Exposed (m : Image) (taken roots : List Nat) : Prop :=
  ∀ read before c after, taken = before ++ c :: after → (∀ i ∈ after, read i = m.pageAt i) →
    (read c).head? = some 0 → ¬ ∀ root ∈ roots, Reads K V read root

theorem Exposed.self (all : taken ⊆ roots) : Exposed K V m taken roots := by
  intro read before c after split _ lost reads
  have mem : c ∈ taken := split ▸ List.mem_append_right _ List.mem_cons_self
  exact (reads c (all mem)).head lost

-- The new pages link to the roots so far.
theorem Exposed.parents (exposed : Exposed K V m taken roots)
    (same : ∀ i ∈ taken, m'.pageAt i = m.pageAt i)
    (links : ∀ root ∈ roots, ∃ n ∈ new, ∃ keys children, nodeType (m'.pageAt n) = .ok internalType ∧
      decodeInternal K (m'.pageAt n) = .ok (keys, children) ∧ root ∈ children) :
    Exposed K V m' (taken ++ new) new := by
  intro read before c after split agree lost all
  have fresh (mem : c ∈ new) : False := (all c mem).head lost
  rcases List.append_eq_append_iff.mp split with ⟨more, -, eq⟩ | ⟨more, eq, rest⟩
  · exact fresh (eq ▸ List.mem_append_right _ List.mem_cons_self)
  · cases more with
    | nil => exact fresh (List.nil_append new ▸ rest ▸ List.mem_cons_self)
    | cons c' more =>
      obtain ⟨rfl, rfl⟩ := List.cons.inj rest
      refine exposed read before c more eq (fun i mem => ?_) lost fun root mem => ?_
      · rw [agree i (List.mem_append_left _ mem)]
        exact same i (eq ▸ List.mem_append_right _ (List.mem_cons_of_mem _ mem))
      · obtain ⟨n, inside, keys, children, kind, decoded, child⟩ := links root mem
        have here : read n = m'.pageAt n := agree n (List.mem_append_right _ inside)
        exact (all n inside).child (here ▸ kind) (here ▸ decoded) child

end Exposed

variable (K V) in
structure Capacities (size : Nat) : Prop where
  leaf : 1 ≤ leafCapacity size (FixedCodec.len K) (FixedCodec.len V)
  leafSmall : leafCapacity size (FixedCodec.len K) (FixedCodec.len V) ≤ 65535
  internal : 1 ≤ internalCapacity size (FixedCodec.len K)
  internalSmall : internalCapacity size (FixedCodec.len K) ≤ 65535

end Gems.Index
