import Gems.Index.BTree
import Gems.Index.Codec
import Gems.Lib.Lists
import Gems.Lib.Recursion
import Gems.Storage.Disjoint

set_option autoImplicit false

namespace Gems.Index

open Lib Storage Relation

-- On a page whose keys are out of order the standard library leaves open what its searches give,
-- apart from staying inside the slice.
structure Searches (K V : Type) where
  partitionPoint : (K → Bool) → List K → Nat
  binarySearch : List (K × V) → K → Except Nat Nat
  point_le : ∀ p l, partitionPoint p l ≤ l.length
  found_lt : ∀ l k i, binarySearch l k = .ok i → i < l.length

variable {K V : Type} [FixedCodec K] [FixedCodec V]

namespace BTree

variable [LinearOrder K]

-- `get` with any searches, and with every index checked.
def getLoopWith (search : Searches K V) (p : Pager) (key : K) : Nat → Nat → Except Fault (Option V)
  | 0, _ => .error .unfinished
  | fuel + 1, pageId => do
    let buf ← p.page pageId
    let kind ← nodeType buf
    if kind = leafType then
      let entries ← decodeLeaf K V buf
      match search.binarySearch entries key with
      | .ok idx =>
        match entries[idx]? with
        | some (_, value) => pure (some value)
        | none => .error .panicked
      | .error _ => pure none
    else if kind = internalType then
      let (keys, children) ← decodeInternal K buf
      let idx := search.partitionPoint (fun k => decide (k ≤ key)) keys
      getLoopWith search p key fuel (← child children idx)
    else .error .panicked

def getWith (search : Searches K V) (fuel : Nat) (t : BTree) (key : K) : Except Fault (Option V) :=
  let pageId := t.pager.header.rootPage
  if pageId = 0 then .ok none else getLoopWith search t.pager key fuel pageId

end BTree

section Pages

variable (K) in
def Opens (p : Pager) (pageId : Nat) (keys : List K) (children : List Nat) : Prop :=
  ∃ buf, p.page pageId = .ok buf ∧ decodeInternal K buf = .ok (keys, children)

variable (K V) in
/-- The page and all below it are nodes without damage. -/
inductive Whole (p : Pager) : Nat → Prop where
  | leaf {pageId : Nat} (buf : List UInt8) (entries : List (K × V)) (page : p.page pageId = .ok buf)
      (decoded : decodeLeaf K V buf = .ok entries) : Whole p pageId
  | internal {pageId : Nat} (keys : List K) (children : List Nat) (opens : Opens K p pageId keys children)
      (each : ∀ c ∈ children, Whole p c) : Whole p pageId

/-- The page is there, and its first byte names no kind of node. -/
def Untyped (p : Pager) (pageId : Nat) : Prop :=
  ∃ kind rest, p.page pageId = .ok (kind :: rest) ∧ kind ≠ leafType ∧ kind ≠ internalType

/-- The child that `get` goes on with. -/
def Descends [LinearOrder K] (search : Searches K V) (p : Pager) (key : K) (pageId next : Nat) : Prop :=
  ∃ keys children, Opens K p pageId keys children ∧
    children[search.partitionPoint (fun k => decide (k ≤ key)) keys]? = some next

variable (K V) in
/-- A child that `scan_rec` goes on with: what stands before it was read without an error. -/
def Visits (p : Pager) (pageId next : Nat) : Prop :=
  ∃ keys before after, Opens K p pageId keys (before ++ next :: after) ∧ ∀ c ∈ before, Whole K V p c

end Pages

section Reading

variable {p : Pager} {pageId : Nat} {buf : List UInt8}

theorem page_cases (pageId : Nat) (large : 0 < p.header.pageSize) :
    (∃ e, p.page pageId = .error (.raised e)) ∨
      ∃ kind rest, p.page pageId = .ok (kind :: rest) ∧ (kind :: rest).length = p.header.pageSize := by
  rw [Pager.page]
  split
  · exact .inl ⟨_, rfl⟩
  · right
    cases read : slice p.bytes (p.fileOffset pageId) p.header.pageSize with
    | nil =>
      have size := congrArg List.length read
      rw [length_slice] at size
      exact absurd size (Nat.pos_iff_ne_zero.mp large)
    | cons kind rest => exact ⟨kind, rest, rfl, by rw [← read, length_slice]⟩

theorem decodeLeaf_returns (buf : List UInt8) :
    (∃ e, decodeLeaf K V buf = .error (.raised e)) ∨ ∃ entries, decodeLeaf K V buf = .ok entries := by
  unfold decodeLeaf
  split
  · exact .inl ⟨_, rfl⟩
  split
  · exact .inl ⟨_, rfl⟩
  dsimp only
  split
  · exact .inl ⟨_, rfl⟩
  · exact .inr ⟨_, rfl⟩

theorem decodeInternal_returns (large : internalHeaderLen + 4 ≤ buf.length) :
    (∃ e, decodeInternal K buf = .error (.raised e)) ∨
      ∃ keys children, decodeInternal K buf = .ok (keys, children) ∧ children.length = keys.length + 1 := by
  unfold decodeInternal
  split
  · exact .inl ⟨_, rfl⟩
  split
  · exact .inl ⟨_, rfl⟩
  dsimp only
  split
  · exact .inl ⟨_, rfl⟩
  next few =>
    right
    have room : internalHeaderLen + ofLittleEndian ((buf.drop 1).take 2) * FixedCodec.len K +
        (ofLittleEndian ((buf.drop 1).take 2) + 1) * 4 ≤ buf.length := by
      have all := Nat.mul_le_of_le_div _ _ _ (Nat.le_of_not_gt few)
      rw [Nat.mul_add] at all
      omega
    rw [if_pos room]
    exact ⟨_, _, rfl, by rw [length_readMany, length_readMany]⟩

theorem Opens.typed {keys : List K} {children : List Nat} {kind : UInt8} {rest : List UInt8}
    (opens : Opens K p pageId keys children) (page : p.page pageId = .ok (kind :: rest)) : kind = internalType := by
  obtain ⟨buf, page', decoded⟩ := opens
  obtain rfl : kind :: rest = buf := Except.ok.inj (page.symm.trans page')
  unfold decodeInternal at decoded
  split at decoded
  · cases decoded
  next typed => simpa using typed

theorem Opens.unique {keys keys' : List K} {children children' : List Nat}
    (opens : Opens K p pageId keys children) (page : p.page pageId = .ok buf)
    (decoded : decodeInternal K buf = .ok (keys', children')) : keys = keys' ∧ children = children' := by
  obtain ⟨buf', page', decoded'⟩ := opens
  obtain rfl := Except.ok.inj (page.symm.trans page')
  exact Prod.mk.inj (Except.ok.inj (decoded'.symm.trans decoded))

theorem readable_finite (large : 0 < p.header.pageSize) : {id | ∃ buf, p.page id = .ok buf}.Finite := by
  refine (Set.finite_le_nat p.mappedLen).subset fun id ⟨buf, page⟩ => ?_
  rw [Pager.page] at page
  split at page
  · cases page
  next inside =>
    have whole : id ≤ p.fileOffset id := Nat.le_mul_of_pos_right id large
    exact (by omega : id ≤ p.mappedLen)

theorem readers_finite (large : 0 < p.header.pageSize) {calls : Nat → Nat → Prop}
    (inside : ∀ id next, calls id next → ∃ keys children, Opens K p id keys children ∧ next ∈ children) :
    {id | ∃ next, calls id next}.Finite := by
  refine (readable_finite large).subset fun id ⟨next, call⟩ => ?_
  obtain ⟨-, -, ⟨buf, page, -⟩, -⟩ := inside id next call
  exact ⟨buf, page⟩

theorem children_finite {calls : Nat → Nat → Prop}
    (inside : ∀ id next, calls id next → ∃ keys children, Opens K p id keys children ∧ next ∈ children) (id : Nat) :
    {next | calls id next}.Finite := by
  by_cases opens : ∃ keys children, Opens K p id keys children
  · obtain ⟨keys, children, buf, page, decoded⟩ := opens
    refine (List.finite_toSet children).subset fun next call => ?_
    obtain ⟨keys', children', opens', mem⟩ := inside id next call
    rwa [(opens'.unique page decoded).2] at mem
  · refine Set.finite_empty.subset fun next call => ?_
    obtain ⟨keys, children, opens', -⟩ := inside id next call
    exact absurd ⟨keys, children, opens'⟩ opens

end Reading

section Returning

variable {A B : Type} {p : Pager}

/-- The call came back with a value or an error, not with a panic. -/
def Returned (r : Except Fault A) : Prop := (∃ a, r = .ok a) ∨ ∃ e, r = .error (.raised e)

theorem returned_ok {a : A} : Returned (.ok a : Except Fault A) := .inl ⟨a, rfl⟩

theorem returned_error {e : Fault} : Returned (.error e : Except Fault A) ↔ ∃ e', e = .raised e' := by
  constructor
  · rintro (⟨a, made⟩ | ⟨e', made⟩)
    · cases made
    · exact ⟨e', Except.error.inj made⟩
  · rintro ⟨e', rfl⟩
    exact .inr ⟨e', rfl⟩

-- A loop comes back when every call does that is made before the first error.
theorem returned_mapM {f : A → Except Fault B} {l : List A} : Returned (l.mapM f) ↔
    ∀ before a after, l = before ++ a :: after → (∀ b ∈ before, ∃ out, f b = .ok out) → Returned (f a) := by
  induction l with
  | nil => exact ⟨fun _ before a after whole => by simp at whole, fun _ => .inl ⟨[], rfl⟩⟩
  | cons a rest ih =>
    cases here : f a with
    | ok out =>
      have tail : Returned ((a :: rest).mapM f) ↔ Returned (rest.mapM f) := by
        rw [List.mapM_cons, here]
        cases later : rest.mapM f with
        | ok outs => exact iff_of_true returned_ok returned_ok
        | error e => exact returned_error.trans returned_error.symm
      rw [tail, ih]
      constructor
      · intro all before a' after whole fine
        cases before with
        | nil =>
          obtain ⟨rfl, -⟩ := List.cons.inj whole
          exact .inl ⟨out, here⟩
        | cons b before =>
          obtain ⟨-, tails⟩ := List.cons.inj whole
          exact all before a' after tails fun b mem => fine b (List.mem_cons_of_mem _ mem)
      · intro all before a' after whole fine
        refine all (a :: before) a' after (by rw [whole, List.cons_append]) fun b mem => ?_
        rcases List.mem_cons.mp mem with rfl | inside
        · exact ⟨out, here⟩
        · exact fine b inside
    | error e =>
      have same : Returned ((a :: rest).mapM f) ↔ Returned (f a) := by
        rw [List.mapM_cons, here]
        exact returned_error.trans returned_error.symm
      rw [same]
      constructor
      · intro first before a' after whole fine
        cases before with
        | nil => exact (List.cons.inj whole).1 ▸ first
        | cons b before =>
          obtain ⟨rfl, -⟩ := List.cons.inj whole
          obtain ⟨out, made⟩ := fine a List.mem_cons_self
          cases here.symm.trans made
      · intro all
        exact all [] a rest rfl fun b none => absurd none List.not_mem_nil

end Returning

section Shapes

variable {p : Pager} {pageId n : Nat}

variable (K) in
inductive Shape (p : Pager) (pageId : Nat) : Prop where
  | missing (e : Error) (page : p.page pageId = .error (.raised e))
  | leaf (rest : List UInt8) (page : p.page pageId = .ok (leafType :: rest))
  | damaged (rest : List UInt8) (page : p.page pageId = .ok (internalType :: rest)) (e : Error)
      (failed : decodeInternal K (internalType :: rest) = .error (.raised e))
  | internal (rest : List UInt8) (page : p.page pageId = .ok (internalType :: rest)) (keys : List K)
      (children : List Nat) (decoded : decodeInternal K (internalType :: rest) = .ok (keys, children))
      (links : children.length = keys.length + 1)
  | untyped (kind : UInt8) (rest : List UInt8) (page : p.page pageId = .ok (kind :: rest))
      (leaf : kind ≠ leafType) (internal : kind ≠ internalType)

variable (K) in
theorem shape (large : internalHeaderLen + 4 ≤ p.header.pageSize) (pageId : Nat) : Shape K p pageId := by
  have some_ : 0 < p.header.pageSize := by omega
  rcases page_cases pageId some_ with ⟨e, missing⟩ | ⟨kind, rest, page, size⟩
  · exact .missing e missing
  by_cases leaf : kind = leafType
  · subst leaf
    exact .leaf rest page
  by_cases internal : kind = internalType
  · subst internal
    rcases decodeInternal_returns (K := K) (large.trans size.ge) with ⟨e, failed⟩ | ⟨keys, children, decoded, links⟩
    · exact .damaged rest page e failed
    · exact .internal rest page keys children decoded links
  · exact .untyped kind rest page leaf internal

theorem typed_of_missing {e : Fault} (missing : p.page pageId = .error e) : ¬ Untyped p pageId := by
  rintro ⟨kind, rest, page, -⟩
  cases missing.symm.trans page

theorem typed_of_page {kind : UInt8} {rest : List UInt8} (page : p.page pageId = .ok (kind :: rest))
    (typed : kind = leafType ∨ kind = internalType) : ¬ Untyped p pageId := by
  rintro ⟨kind', rest', page', leaf, internal⟩
  cases page.symm.trans page'
  exact typed.elim leaf internal

theorem shut_of_missing {e : Fault} (missing : p.page pageId = .error e) (keys : List K) (children : List Nat) :
    ¬ Opens K p pageId keys children := by
  rintro ⟨buf, page, -⟩
  cases missing.symm.trans page

theorem shut_of_leaf {rest : List UInt8} (page : p.page pageId = .ok (leafType :: rest)) (keys : List K)
    (children : List Nat) : ¬ Opens K p pageId keys children :=
  fun opens => absurd (opens.typed page) (by decide)

theorem shut_of_damaged {buf : List UInt8} {e : Fault} (page : p.page pageId = .ok buf)
    (failed : decodeInternal K buf = .error e) (keys : List K) (children : List Nat) :
    ¬ Opens K p pageId keys children := by
  rintro ⟨buf', page', decoded⟩
  cases page.symm.trans page'
  cases failed.symm.trans decoded

end Shapes

section Get

variable [LinearOrder K] {p : Pager} {pageId n : Nat}

-- One turn of the loop ends here or goes on with exactly one child.
theorem get_levels (search : Searches K V) (large : internalHeaderLen + 4 ≤ p.header.pageSize) (key : K) :
    Levels (Descends search p key) (Untyped p)
      fun n pageId => Returned (BTree.getLoopWith search p key n pageId) where
  zero := by
    intro pageId returned
    obtain ⟨e, same⟩ := returned_error.mp returned
    cases same
  succ := by
    intro n pageId
    have ends (typed : ¬ Untyped p pageId) (shut : ∀ keys children, ¬ Opens K p pageId keys children) :
        ¬ Untyped p pageId ∧ ∀ next, Descends search p key pageId next →
          Returned (BTree.getLoopWith search p key n next) :=
      ⟨typed, fun next ⟨keys, children, opens, _⟩ => absurd opens (shut keys children)⟩
    rw [BTree.getLoopWith]
    cases shape K large pageId with
    | missing e page =>
      rw [page]
      exact iff_of_true (returned_error.mpr ⟨e, rfl⟩) (ends (typed_of_missing page) (shut_of_missing page))
    | leaf rest page =>
      refine iff_of_true ?_ (ends (typed_of_page page (.inl rfl)) (shut_of_leaf page))
      rw [page]
      simp only [bind, Except.bind, nodeType, if_true]
      rcases decodeLeaf_returns (K := K) (V := V) (leafType :: rest) with ⟨e, failed⟩ | ⟨entries, decoded⟩
      · rw [failed]
        exact returned_error.mpr ⟨e, rfl⟩
      · rw [decoded]
        dsimp only
        cases found : search.binarySearch entries key with
        | error idx => exact returned_ok
        | ok idx =>
          dsimp only
          rw [List.getElem?_eq_getElem (search.found_lt entries key idx found)]
          exact returned_ok
    | damaged rest page e failed =>
      refine iff_of_true ?_ (ends (typed_of_page page (.inr rfl)) (shut_of_damaged page failed))
      rw [page]
      simp only [bind, Except.bind, nodeType, failed]
      exact returned_error.mpr ⟨e, rfl⟩
    | internal rest page keys children decoded links =>
      have inside : search.partitionPoint (fun k => decide (k ≤ key)) keys < children.length := by
        have := search.point_le (fun k => decide (k ≤ key)) keys
        omega
      have there := List.getElem?_eq_getElem inside
      rw [page]
      simp only [bind, Except.bind, nodeType, decoded, BTree.child, there]
      constructor
      · intro returned
        refine ⟨typed_of_page page (.inr rfl), fun next ⟨keys', children', opens, there'⟩ => ?_⟩
        obtain ⟨rfl, rfl⟩ := opens.unique page decoded
        obtain rfl := Option.some.inj (there.symm.trans there')
        exact returned
      · rintro ⟨-, callees⟩
        exact callees _ ⟨keys, children, ⟨_, page, decoded⟩, there⟩
    | untyped kind rest page leaf internal =>
      refine iff_of_false (fun returned => ?_) fun both => both.1 ⟨kind, rest, page, leaf, internal⟩
      rw [page] at returned
      simp only [bind, Except.bind, nodeType, leaf, internal, if_false] at returned
      obtain ⟨e, same⟩ := returned_error.mp returned
      cases same

end Get

section Scan

variable {p : Pager} {pageId n : Nat}

theorem scan_leaf {rest : List UInt8} (page : p.page pageId = .ok (leafType :: rest)) :
    BTree.scanRec K V p (n + 1) pageId = decodeLeaf K V (leafType :: rest) := by
  rw [BTree.scanRec, page]
  rfl

theorem scan_internal {rest : List UInt8} {keys : List K} {children : List Nat}
    (page : p.page pageId = .ok (internalType :: rest))
    (decoded : decodeInternal K (internalType :: rest) = .ok (keys, children)) :
    BTree.scanRec K V p (n + 1) pageId = (children.mapM fun c => BTree.scanRec K V p n c).map List.flatten := by
  rw [BTree.scanRec, page]
  simp only [bind, Except.bind, nodeType, decoded]
  cases children.mapM fun c => BTree.scanRec K V p n c <;> rfl

theorem returned_map {A B : Type} {r : Except Fault A} {f : A → B} : Returned (r.map f) ↔ Returned r := by
  cases r with
  | ok a => exact iff_of_true returned_ok returned_ok
  | error e => exact returned_error.trans returned_error.symm

theorem not_returned_zero : ¬ Returned (BTree.scanRec K V p 0 pageId) := by
  intro returned
  obtain ⟨e, same⟩ := returned_error.mp returned
  cases same

theorem scan_whole (large : internalHeaderLen + 4 ≤ p.header.pageSize) {out : List (K × V)}
    (scanned : BTree.scanRec K V p n pageId = .ok out) : Whole K V p pageId := by
  induction n generalizing pageId out with
  | zero => cases scanned
  | succ n ih =>
    cases shape K large pageId with
    | missing e page =>
      rw [BTree.scanRec, page] at scanned
      cases scanned
    | leaf rest page => exact .leaf _ out page ((scan_leaf page).symm.trans scanned)
    | damaged rest page e failed =>
      rw [BTree.scanRec, page] at scanned
      simp only [bind, Except.bind, nodeType, failed] at scanned
      cases scanned
    | internal rest page keys children decoded links =>
      refine .internal keys children ⟨_, page, decoded⟩ fun c mem => ?_
      rw [scan_internal page decoded] at scanned
      cases parts : children.mapM fun c => BTree.scanRec K V p n c with
      | error e =>
        rw [parts] at scanned
        cases scanned
      | ok outs =>
        obtain ⟨out', scanned'⟩ := each_of_mapM parts c mem
        exact ih scanned'
    | untyped kind rest page leaf internal =>
      rw [BTree.scanRec, page] at scanned
      simp only [bind, Except.bind, nodeType, leaf, internal, if_false] at scanned
      cases scanned

theorem Whole.scans (whole : Whole K V p pageId) (returned : Returned (BTree.scanRec K V p n pageId)) :
    ∃ out, BTree.scanRec K V p n pageId = .ok out := by
  induction whole generalizing n with
  | leaf buf entries page decoded =>
    cases n with
    | zero => exact absurd returned not_returned_zero
    | succ n =>
      cases buf with
      | nil => cases decoded
      | cons kind rest =>
        have leaf : kind = leafType := by
          unfold decodeLeaf at decoded
          split at decoded
          · cases decoded
          next typed => simpa using typed
        subst leaf
        exact ⟨entries, (scan_leaf page).trans decoded⟩
  | internal keys children opens each ih =>
    cases n with
    | zero => exact absurd returned not_returned_zero
    | succ n =>
      obtain ⟨buf, page, decoded⟩ := opens
      cases buf with
      | nil => cases decoded
      | cons kind rest =>
        obtain rfl := Opens.typed ⟨_, page, decoded⟩ page
        rw [scan_internal page decoded] at returned ⊢
        rcases returned_map.mp returned with ⟨outs, parts⟩ | ⟨e, parts⟩
        · rw [parts]
          exact ⟨_, rfl⟩
        · obtain ⟨c, mem, failed⟩ := error_of_mapM parts
          obtain ⟨out, scanned⟩ := ih c mem (n := n) (failed ▸ returned_error.mpr ⟨e, rfl⟩)
          cases failed.symm.trans scanned

theorem scan_levels (large : internalHeaderLen + 4 ≤ p.header.pageSize) :
    Levels (Visits K V p) (Untyped p) fun n pageId => Returned (BTree.scanRec K V p n pageId) where
  zero := fun _ => not_returned_zero
  succ := by
    intro n pageId
    have ends (typed : ¬ Untyped p pageId) (shut : ∀ (keys : List K) children, ¬ Opens K p pageId keys children) :
        ¬ Untyped p pageId ∧ ∀ next, Visits K V p pageId next → Returned (BTree.scanRec K V p n next) :=
      ⟨typed, fun next ⟨keys, before, after, opens, _⟩ => absurd opens (shut keys _)⟩
    cases shape K large pageId with
    | missing e page =>
      refine iff_of_true ?_ (ends (typed_of_missing page) (shut_of_missing page))
      rw [BTree.scanRec, page]
      exact returned_error.mpr ⟨e, rfl⟩
    | leaf rest page =>
      refine iff_of_true ?_ (ends (typed_of_page page (.inl rfl)) (shut_of_leaf page))
      rw [scan_leaf page]
      rcases decodeLeaf_returns (K := K) (V := V) (leafType :: rest) with ⟨e, failed⟩ | ⟨entries, decoded⟩
      · exact failed ▸ returned_error.mpr ⟨e, rfl⟩
      · exact decoded ▸ returned_ok
    | damaged rest page e failed =>
      refine iff_of_true ?_ (ends (typed_of_page page (.inr rfl)) (shut_of_damaged page failed))
      rw [BTree.scanRec, page]
      simp only [bind, Except.bind, nodeType, failed]
      exact returned_error.mpr ⟨e, rfl⟩
    | internal rest page keys children decoded links =>
      rw [scan_internal page decoded, returned_map, returned_mapM]
      constructor
      · intro all
        refine ⟨typed_of_page page (.inr rfl), fun next ⟨keys', before, after, opens, whole⟩ => ?_⟩
        obtain ⟨rfl, split⟩ := opens.unique page decoded
        -- each child before `next` comes back, and is whole: it comes back with its entries
        have fine (front back : List Nat) (parts : before = front ++ back) :
            ∀ b ∈ front, ∃ out, BTree.scanRec K V p n b = .ok out := by
          induction front using List.reverseRecOn generalizing back with
          | nil => exact fun b none => absurd none List.not_mem_nil
          | append_singleton front b ih =>
            have earlier := ih (b :: back) (by rw [parts, List.append_assoc]; rfl)
            intro b' mem
            rcases List.mem_append.mp mem with inside | last
            · exact earlier b' inside
            · obtain rfl := List.mem_singleton.mp last
              have here : children = front ++ b' :: (back ++ next :: after) := by
                rw [← split, parts]
                simp
              exact (whole b' (by simp [parts])).scans (all front b' _ here earlier)
        exact all before next after split.symm (fine before [] (List.append_nil _).symm)
      · rintro ⟨-, callees⟩ before a after split fine
        refine callees a ⟨keys, before, after, ⟨_, page, split ▸ decoded⟩, fun c mem => ?_⟩
        obtain ⟨out, scanned⟩ := fine c mem
        exact scan_whole large scanned
    | untyped kind rest page leaf internal =>
      refine iff_of_false (fun returned => ?_) fun both => both.1 ⟨kind, rest, page, leaf, internal⟩
      rw [BTree.scanRec, page] at returned
      simp only [bind, Except.bind, nodeType, leaf, internal, if_false] at returned
      obtain ⟨e, same⟩ := returned_error.mp returned
      cases same

theorem scan_returns_iff {t : BTree} (large : 34 ≤ t.pager.header.pageSize) :
    (∃ fuel, Returned (t.scanAll K V fuel)) ↔ (t.pager.header.rootPage ≠ 0 →
      Grounded (Visits K V t.pager) (Untyped t.pager) t.pager.header.rootPage) := by
  have some_ : 0 < t.pager.header.pageSize := by omega
  have inside (id next : Nat) (call : Visits K V t.pager id next) :
      ∃ keys children, Opens K t.pager id keys children ∧ next ∈ children := by
    obtain ⟨keys, before, after, opens, -⟩ := call
    exact ⟨keys, _, opens, by simp⟩
  by_cases empty : t.pager.header.rootPage = 0
  · refine iff_of_true ⟨0, ?_⟩ (absurd empty)
    rw [BTree.scanAll, if_pos empty]
    exact returned_ok
  · have levels : Levels (Visits K V t.pager) _ _ := scan_levels (le_trans (by decide) large)
    simp only [BTree.scanAll, ne_eq, empty, not_false_eq_true, true_imp_iff]
    exact levels.returns_iff (readers_finite some_ inside) (children_finite inside)

end Scan

section Damage

variable [LinearOrder K]

-- `get` and its searches on pages that are in order.
def Searches.standard : Searches K V where
  partitionPoint := Lib.partitionPoint
  binarySearch := Lib.binarySearch
  point_le := fun p l => (List.takeWhile_prefix p).length_le
  found_lt := by
    intro l k i found
    unfold Lib.binarySearch at found
    dsimp only at found
    split at found
    next e there =>
      split at found
      · cases found
        exact (List.getElem?_eq_some_iff.mp there).1
      · cases found
    · cases found

theorem getWith_standard (fuel : Nat) (t : BTree) (key : K) :
    BTree.getWith Searches.standard fuel t key = BTree.get V fuel t key := by
  have loop (p : Pager) (fuel pageId : Nat) :
      BTree.getLoopWith Searches.standard p key fuel pageId = BTree.getLoop V p key fuel pageId := by
    induction fuel generalizing pageId with
    | zero => rfl
    | succ fuel ih =>
      rw [BTree.getLoopWith, BTree.getLoop]
      refine bind_congr fun buf => bind_congr fun kind => ?_
      split
      · refine bind_congr fun entries => ?_
        cases found : binarySearch entries key with
        | error idx => simp only [Searches.standard, found]
        | ok idx =>
          have inside := Searches.standard.found_lt entries key idx found
          simp only [Searches.standard, found, List.getElem?_eq_getElem inside]
          rfl
      split
      · exact bind_congr fun (keys, children) => bind_congr fun next => ih next
      · rfl
  rw [BTree.getWith, BTree.get, loop]

theorem get_returns_iff (search : Searches K V) {t : BTree} (large : 34 ≤ t.pager.header.pageSize) (key : K) :
    (∃ fuel, Returned (t.getWith search fuel key)) ↔ (t.pager.header.rootPage ≠ 0 →
      Grounded (Descends search t.pager key) (Untyped t.pager) t.pager.header.rootPage) := by
  have some_ : 0 < t.pager.header.pageSize := by omega
  have inside (id next : Nat) (call : Descends search t.pager key id next) :
      ∃ keys children, Opens K t.pager id keys children ∧ next ∈ children := by
    obtain ⟨keys, children, opens, there⟩ := call
    exact ⟨keys, children, opens, List.mem_of_getElem? there⟩
  by_cases empty : t.pager.header.rootPage = 0
  · refine iff_of_true ⟨0, ?_⟩ (absurd empty)
    rw [BTree.getWith, if_pos empty]
    exact returned_ok
  · have levels := get_levels search (le_trans (by decide) large) key
    simp only [BTree.getWith, ne_eq, empty, not_false_eq_true, true_imp_iff]
    exact levels.returns_iff (readers_finite some_ inside) (children_finite inside)

/-- The descents of `get` and the recursion of `scan_all` meet no page of unknown type and come back
to no page they are inside of. -/
structure Sane (search : Searches K V) (t : BTree) : Prop where
  get : ∀ key, t.pager.header.rootPage ≠ 0 →
    Grounded (Descends search t.pager key) (Untyped t.pager) t.pager.header.rootPage
  scan : t.pager.header.rootPage ≠ 0 → Grounded (Visits K V t.pager) (Untyped t.pager) t.pager.header.rootPage

/-- Reads of a file with any bytes in its pages come back, and do not panic, exactly when it is sane. -/
theorem reads_return_iff (search : Searches K V) (t : BTree) (large : 34 ≤ t.pager.header.pageSize) :
    ((∀ key, ∃ fuel, Returned (t.getWith search fuel key)) ∧ ∃ fuel, Returned (t.scanAll K V fuel)) ↔
      Sane search t := by
  rw [scan_returns_iff large, forall_congr' fun key => get_returns_iff search large key]
  exact ⟨fun ⟨get, scan⟩ => ⟨get, scan⟩, fun sane => ⟨sane.get, sane.scan⟩⟩

end Damage

section Example

def oneNode : Header where
  magic := Index.magic
  formatVersion := 1
  pageSize := 64
  keyLen := 24
  valueLen := 13
  rootPage := 1
  freeListHead := 0
  pageCount := 2
  commitSeq := 1

-- A file of a header and one page, which starts with these bytes.
def oneNodeFile (page : List UInt8) : DiskFile where
  bytes := patch (patch (fun _ => 0) 0 oneNode.encode) 64 page
  len := 128

theorem oneNodeFile_opens (page : List UInt8) : ∃ t, BTree.openFile fourKiB (oneNodeFile page) = .ok t ∧
    t.pager.header = oneNode ∧ t.pager.page 1 = .ok (slice (oneNodeFile page).bytes 64 64) := by
  have header : slice (oneNodeFile page).bytes 0 headerEncodedLen = oneNode.encode := by
    have size := oneNode.length_encode
    have small : 0 + headerEncodedLen ≤ 64 := by decide
    rw [oneNodeFile, slice_patch_apart (.inr small), ← size]
    exact slice_patch_same
  have decoded : Header.decode (slice (oneNodeFile page).bytes 0 headerEncodedLen) = .ok oneNode := by
    rw [header]
    exact Header.decode_encode ⟨rfl, by decide, by decide, by decide, by decide, by decide, by decide, by decide,
      by decide⟩
  have size : (oneNodeFile page).len ≠ 0 := Nat.succ_ne_zero 127
  refine ⟨{
    pager := {
      bytes := (oneNodeFile page).bytes
      fileLen := 128
      mappedLen := roundUpToOsPage fourKiB 128
      header := oneNode
      held := fun _ => [(oneNodeFile page).bytes] }
    pendingFree := [] }, ?_, rfl, ?_⟩
  · rw [BTree.openFile, Pager.openFile, if_neg size, decoded]
    rfl
  · have mapped : 128 ≤ roundUpToOsPage fourKiB 128 := le_roundUpToOsPage _ _
    exact if_neg (Nat.not_lt.mpr mapped)

theorem reads_return_leaf : ∃ t, BTree.openFile fourKiB (oneNodeFile [leafType]) = .ok t ∧
    (∀ key : Tuid, ∃ fuel, Returned (t.getWith (Searches.standard : Searches Tuid SlotPointer) fuel key)) ∧
    ∃ fuel, Returned (t.scanAll Tuid SlotPointer fuel) := by
  obtain ⟨t, opened, header, page⟩ := oneNodeFile_opens [leafType]
  have leaf : ∃ rest, t.pager.page 1 = .ok (leafType :: rest) := ⟨_, page⟩
  obtain ⟨rest, page⟩ := leaf
  have alone {calls : Nat → Nat → Prop} (shut : ∀ next, ¬ calls 1 next) : Grounded calls (Untyped t.pager) 1 := by
    intro id reached
    rcases ReflTransGen.cases_head reached with rfl | ⟨next, call, -⟩
    · refine ⟨typed_of_page page (.inl rfl), fun cycle => ?_⟩
      obtain ⟨next, call, -⟩ := TransGen.head'_iff.mp cycle
      exact shut next call
    · exact absurd call (shut next)
  have root : t.pager.header.rootPage = 1 := by rw [header]; rfl
  refine ⟨t, opened, (reads_return_iff Searches.standard t (by rw [header]; decide)).mpr ⟨?_, ?_⟩⟩
  · intro key _
    rw [root]
    exact alone fun next ⟨keys, children, opens, _⟩ => shut_of_leaf page keys children opens
  · intro _
    rw [root]
    exact alone fun next ⟨keys, before, after, opens, _⟩ => shut_of_leaf page keys _ opens

-- A page of zeroes: `get` reaches the arm that is called unreachable. An internal node that is its own
-- only child: `get` and `scan_all` never come back.
theorem reads_never_return :
    (∃ t, BTree.openFile fourKiB (oneNodeFile []) = .ok t ∧ 34 ≤ t.pager.header.pageSize ∧
      t.get SlotPointer 1 (Tuid.fromBytes []) = .error .panicked) ∧
    ∃ t, BTree.openFile fourKiB (oneNodeFile [internalType, 0, 0, 1, 0, 0, 0]) = .ok t ∧
      34 ≤ t.pager.header.pageSize ∧
      ∀ fuel, ¬ Returned (t.get SlotPointer fuel (Tuid.fromBytes [])) ∧
        ¬ Returned (t.scanAll Tuid SlotPointer fuel) := by
  constructor
  · obtain ⟨t, opened, header, page⟩ := oneNodeFile_opens []
    refine ⟨t, opened, by rw [header]; decide, ?_⟩
    rw [BTree.get, header]
    simp only [oneNode, BTree.getLoop, page]
    rfl
  · obtain ⟨t, opened, header, page⟩ := oneNodeFile_opens [internalType, 0, 0, 1, 0, 0, 0]
    have large : 34 ≤ t.pager.header.pageSize := by rw [header]; decide
    have root : t.pager.header.rootPage = 1 := by rw [header]; rfl
    have opens : Opens Tuid t.pager 1 [] [1] := ⟨_, page, by decide⟩
    have present : t.pager.header.rootPage ≠ 0 := by rw [root]; decide
    refine ⟨t, opened, large, fun fuel => ⟨fun returned => ?_, fun returned => ?_⟩⟩
    · rw [← getWith_standard] at returned
      have grounded := (get_returns_iff Searches.standard large _).mp ⟨fuel, returned⟩ present
      rw [root] at grounded
      exact (grounded 1 .refl).2 (.single ⟨[], [1], opens, rfl⟩)
    · have grounded := (scan_returns_iff large).mp ⟨fuel, returned⟩ present
      rw [root] at grounded
      exact (grounded 1 .refl).2 (.single ⟨[], [], [], opens, fun c none => absurd none List.not_mem_nil⟩)

end Example

end Gems.Index
