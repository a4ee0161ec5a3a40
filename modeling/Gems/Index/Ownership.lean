import Gems.Index.Refine

set_option autoImplicit false

namespace Gems.Index

open Lib Prog BTree

variable {K V : Type} [LinearOrder K] [FixedCodec K] [FixedCodec V]

section Walks

variable (K) in
-- The pages that a walk of the tree at `pageId` meets, as often as it meets them.
def treePages (p : Pager) : Nat → Nat → Except Fault (List Nat)
  | 0, _ => .error .unfinished
  | fuel + 1, pageId => do
    let buf ← p.page pageId
    let kind ← nodeType buf
    if kind = leafType then pure [pageId]
    else
      let (_, children) ← decodeInternal K buf
      let parts ← children.mapM fun c => treePages p fuel c
      pure (pageId :: parts.flatten)

-- The free list from `head` on, up to the null link.
def freePages (p : Pager) : Nat → Nat → Except Fault (List Nat)
  | 0, _ => .error .unfinished
  | fuel + 1, head =>
    if head = 0 then .ok []
    else do
      let buf ← p.page head
      let rest ← freePages p fuel (ofLittleEndian (buf.take 4))
      pure (head :: rest)

variable (K) in
def reachablePages (p : Pager) (fuel : Nat) : Except Fault (List Nat) :=
  if p.header.rootPage = 0 then .ok [] else treePages K p fuel p.header.rootPage

-- The page that the next allocation hands out.
def nextPage (p : Pager) : Nat :=
  if p.header.freeListHead ≠ 0 then p.header.freeListHead else p.header.pageCount

end Walks

variable {p : Pager} {read : Nat → List UInt8} {depth fuel pageId head : Nat} {lo hi : Option K}
  {entries : List (K × V)} {own free lost : List Nat} {os : PageSize} {t : BTree}
  {map : K → Option V}

theorem treePages_spec (h : Stored (V := V) read depth pageId lo hi entries own)
    (pages : ∀ i ∈ own, p.page i = .ok (read i)) (enough : depth ≤ fuel) :
    treePages K p fuel pageId = .ok own := by
  induction fuel generalizing depth pageId lo hi entries own with
  | zero =>
    obtain rfl : depth = 0 := Nat.le_zero.mp enough
    exact h.elim
  | succ fuel ih =>
    cases depth with
    | zero => exact h.elim
    | succ depth =>
      rw [treePages, pages pageId (Stored.self_mem h)]
      rcases h with leaf | ⟨keys, children, owns, node⟩
      · simp only [leaf.kind, leaf.own, bind, Except.bind, if_true, pure, Except.pure]
      · have other : ¬ internalType = leafType := by decide
        have row : ∃ parts, children.mapM (fun c => treePages K p fuel c) = .ok parts ∧
            parts.flatten = owns := by
          have inside : ∀ i ∈ owns, p.page i = .ok (read i) := fun i mem =>
            pages i (node.own ▸ List.mem_cons_of_mem _ mem)
          exact node.row.mapM_ok (fun _ own => own) (fun _ _ _ _ => rfl)
            fun _ _ _ _ _ holds sub =>
              ih holds (fun i mem => inside i (sub mem)) (Nat.le_of_succ_le_succ enough)
        obtain ⟨parts, walked, flat⟩ := row
        simp only [node.kind, node.decoded, node.own, bind, Except.bind, if_neg other, walked, flat, pure,
          Except.pure]

theorem freePages_spec {part : List Nat} (good : Good p free)
    (chain : Chain p.bytes p.header.pageSize head part)
    (inside : ∀ i ∈ part, 1 ≤ i ∧ i < p.header.pageCount) (enough : part.length < fuel) :
    freePages p fuel head = .ok part := by
  induction part generalizing fuel head with
  | nil =>
    obtain ⟨fuel, rfl⟩ := Nat.exists_eq_add_of_lt enough
    exact if_pos chain
  | cons i rest ih =>
    obtain ⟨fuel, rfl⟩ := Nat.exists_eq_succ_of_ne_zero (Nat.ne_of_gt (Nat.zero_lt_of_lt enough))
    obtain ⟨rfl, later⟩ := chain
    have here := inside head List.mem_cons_self
    have some : head ≠ 0 := Nat.one_le_iff_ne_zero.mp here.1
    have walked := ih later (fun j mem => inside j (List.mem_cons_of_mem _ mem))
      (Nat.lt_of_succ_lt_succ enough)
    rw [freePages, if_neg some, good.page here.2]
    simp only [bind, Except.bind]
    rw [show freePages p fuel (ofLittleEndian (((p.image free).pageAt head).take 4)) = .ok rest from walked]
    rfl

theorem Keeps.owned (keeps : Keeps t map depth own free []) (enough : depth ≤ fuel) :
    reachablePages K t.pager fuel = .ok own ∧
      freePages t.pager t.pager.header.pageCount t.pager.header.freeListHead = .ok free ∧
      (0 :: (own ++ free)).Perm (List.range t.pager.header.pageCount) ∧
      nextPage t.pager ∉ 0 :: own := by
  have valid := keeps.good.valid
  have count : 1 ≤ t.pager.header.pageCount := valid.count
  have pages : (own ++ free).Perm (List.range' 1 (t.pager.header.pageCount - 1)) := by
    have whole := keeps.maps.pages
    rwa [List.append_nil] at whole
  refine ⟨?_, ?_, ?_, ?_⟩
  · rw [reachablePages]
    rcases keeps.maps.tree with ⟨root, rfl, -⟩ | ⟨entries, stored, -⟩
    · exact if_pos root
    · have present : t.pager.header.rootPage ≠ 0 :=
        Nat.one_le_iff_ne_zero.mp (keeps.maps.used _ stored.self_mem).1
      rw [if_neg present]
      exact treePages_spec stored (fun i mem => keeps.good.page (keeps.maps.used i mem).2.1) enough
  · have few : free.length < t.pager.header.pageCount := by
      have length := pages.length_eq
      rw [List.length_append, List.length_range'] at length
      omega
    exact freePages_spec keeps.good valid.chain valid.inside few
  · obtain ⟨more, eq⟩ := Nat.exists_eq_succ_of_ne_zero (Nat.one_le_iff_ne_zero.mp count)
    rw [eq, Nat.succ_sub_one] at pages
    rw [eq, List.range_eq_range', List.range'_succ]
    exact pages.cons 0
  · have used := keeps.maps.used
    rw [nextPage]
    split
    next some =>
      have chain := valid.chain
      cases free with
      | nil => exact absurd chain some
      | cons i rest =>
        have head : t.pager.header.freeListHead = i := chain.1
        rw [head]
        rintro (_ | ⟨_, mem⟩)
        · exact absurd (valid.inside 0 List.mem_cons_self).1 (by decide)
        · exact (used i mem).2.2 List.mem_cons_self
    next =>
      intro mem
      rcases List.mem_cons.mp mem with zero | inside
      · omega
      · exact absurd (used _ inside).2.1 (lt_irrefl _)

variable (K V) in
/-- After a run that returned, the header page, the tree and the free list share out the pages. -/
def PagesOwned (os : PageSize) (fuel : Nat) (ops : List (Op K V)) (t : BTree) : Prop :=
  match runAll os fuel ops t with
  | (.ok _, t') => ∃ own free, reachablePages K t'.pager fuel = .ok own ∧
    freePages t'.pager t'.pager.header.pageCount t'.pager.header.freeListHead = .ok free ∧
    (0 :: (own ++ free)).Perm (List.range t'.pager.header.pageCount) ∧ nextPage t'.pager ∉ 0 :: own
  | (.error e, t') => e = .panicked ∧ Full t'.pager

theorem pages_owned {pageSize : UInt32} (caps : Capacities K V pageSize.toNat)
    (created : BTree.create K V os pageSize.toNat = .ok t) (ops : List (Op K V))
    (enough : ops.length ≤ fuel) : PagesOwned K V os fuel ops t := by
  have ran := runAll_spec os (created_keeps caps created) ((Nat.zero_add _).trans_le enough)
  unfold PagesOwned
  cases made : runAll os fuel ops t with
  | mk result t' =>
    rw [made] at ran
    cases result with
    | error e => exact ran
    | ok given =>
      obtain ⟨-, depth', own, free, shallow, keeps⟩ := ran
      exact ⟨own, free, keeps.owned (by omega)⟩

theorem pages_owned_primary :
    ∃ t, BTree.create Tuid Storage.SlotPointer ⟨4096, 12, le_rfl, rfl⟩ (4096 : UInt32).toNat = .ok t ∧
      PagesOwned Tuid Storage.SlotPointer ⟨4096, 12, le_rfl, rfl⟩ 3
        [.insert Tuid.nil ⟨0, 1, 2, 3⟩, .delete Tuid.nil, .reopen] t := by
  have large : headerEncodedLen ≤ (4096 : UInt32).toNat := by decide
  obtain ⟨t, created, -⟩ := create_spec Tuid Storage.SlotPointer ⟨4096, 12, le_rfl, rfl⟩ large
    (4096 : UInt32).toNat_lt
  exact ⟨t, created, pages_owned primary_capacities created _ le_rfl⟩

end Gems.Index
