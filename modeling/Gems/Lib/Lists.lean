import Mathlib.Data.List.Induction
import Mathlib.Data.List.Sort

set_option autoImplicit false

namespace Gems.Lib

variable {A B : Type}

theorem mem_of_mapM {f : A → Option B} {l : List A} {out : List B} (h : l.mapM f = some out)
    {b : B} (mem : b ∈ out) : ∃ a ∈ l, f a = some b := by
  induction l generalizing out with
  | nil =>
    obtain rfl : out = [] := by simpa [eq_comm] using h
    simp at mem
  | cons a rest ih =>
    obtain ⟨b', first, h⟩ := Option.bind_eq_some_iff.mp (List.mapM_cons.symm.trans h)
    obtain ⟨out', later, same⟩ := Option.bind_eq_some_iff.mp h
    obtain rfl : b' :: out' = out := Option.some.inj same
    rcases List.mem_cons.mp mem with rfl | inside
    · exact ⟨a, List.mem_cons_self, first⟩
    · obtain ⟨a', mem', found⟩ := ih later inside
      exact ⟨a', List.mem_cons_of_mem _ mem', found⟩

theorem exists_of_mapM {f : A → Option B} {l : List A} {out : List B} (h : l.mapM f = some out)
    {a : A} (mem : a ∈ l) : ∃ b ∈ out, f a = some b := by
  induction l generalizing out with
  | nil => cases mem
  | cons a' rest ih =>
    obtain ⟨b', first, h⟩ := Option.bind_eq_some_iff.mp (List.mapM_cons.symm.trans h)
    obtain ⟨out', later, same⟩ := Option.bind_eq_some_iff.mp h
    obtain rfl : b' :: out' = out := Option.some.inj same
    rcases List.mem_cons.mp mem with rfl | inside
    · exact ⟨b', List.mem_cons_self, first⟩
    · obtain ⟨b, mem', found⟩ := ih later inside
      exact ⟨b, List.mem_cons_of_mem _ mem', found⟩

theorem mapM_isSome {f : A → Option B} {l : List A} (all : ∀ a ∈ l, (f a).isSome) :
    (l.mapM f).isSome := by
  induction l with
  | nil => rfl
  | cons a rest ih =>
    obtain ⟨b, hb⟩ := Option.isSome_iff_exists.mp (all a List.mem_cons_self)
    obtain ⟨out, hout⟩ := Option.isSome_iff_exists.mp
      (ih fun a' mem => all a' (List.mem_cons_of_mem _ mem))
    simp [List.mapM_cons, hb, hout]

theorem mapM_ok {E : Type} {f : A → Except E B} {l : List A} (all : ∀ a ∈ l, ∃ b, f a = .ok b) :
    ∃ out, l.mapM f = .ok out ∧ List.Forall₂ (fun a b => f a = .ok b) l out := by
  induction l with
  | nil => exact ⟨[], rfl, .nil⟩
  | cons a rest ih =>
    obtain ⟨b, first⟩ := all a List.mem_cons_self
    obtain ⟨out, later, each⟩ := ih fun a' mem => all a' (List.mem_cons_of_mem _ mem)
    refine ⟨b :: out, ?_, .cons first each⟩
    rw [List.mapM_cons, first, later]
    rfl

theorem mapM_known {E : Type} {f : A → Except E B} {g : A → Option B} {l : List A}
    (all : ∀ a ∈ l, ∃ b, g a = some b ∧ f a = .ok b) : l.mapM f = .ok (l.filterMap g) := by
  induction l with
  | nil => rfl
  | cons a rest ih =>
    obtain ⟨b, known, made⟩ := all a List.mem_cons_self
    rw [List.mapM_cons, made, ih fun a' mem => all a' (List.mem_cons_of_mem _ mem),
      List.filterMap_cons_some known]
    rfl

theorem each_of_mapM {E : Type} {f : A → Except E B} {l : List A} {out : List B} (h : l.mapM f = .ok out) :
    ∀ a ∈ l, ∃ b, f a = .ok b := by
  induction l generalizing out with
  | nil => exact fun a none => absurd none List.not_mem_nil
  | cons a rest ih =>
    rw [List.mapM_cons] at h
    cases first : f a with
    | error e =>
      rw [first] at h
      cases h
    | ok b =>
      rw [first] at h
      cases later : rest.mapM f with
      | error e =>
        rw [later] at h
        cases h
      | ok bs =>
        intro a' mem
        rcases List.mem_cons.mp mem with rfl | inside
        · exact ⟨b, first⟩
        · exact ih later a' inside

theorem mem_of_mapM_pure {m : Type → Type} [Monad m] [LawfulMonad m] {f : A → m B} {l : List A} {out : List B}
    (reflects : ∀ {C D : Type} (a : m C) (g : C → m D) (d : D), a >>= g = pure d → ∃ c, a = pure c ∧ g c = pure d)
    (inj : ∀ {C : Type} {c c' : C}, (pure c : m C) = pure c' → c = c') (h : l.mapM f = pure out) :
    ∀ b ∈ out, ∃ a ∈ l, f a = pure b := by
  induction l generalizing out with
  | nil =>
    rw [List.mapM_nil] at h
    obtain rfl := inj h
    exact fun b none => absurd none List.not_mem_nil
  | cons a rest ih =>
    rw [List.mapM_cons] at h
    obtain ⟨b, first, h⟩ := reflects _ _ _ h
    obtain ⟨bs, later, h⟩ := reflects _ _ _ h
    obtain rfl := inj h
    intro b' mem
    rcases List.mem_cons.mp mem with rfl | inside
    next => exact ⟨a, List.mem_cons_self, first⟩
    next =>
      obtain ⟨a', mem', made⟩ := ih later b' inside
      exact ⟨a', List.mem_cons_of_mem a mem', made⟩

theorem mem_of_mapM_ok {E : Type} {f : A → Except E B} {l : List A} {out : List B} (h : l.mapM f = .ok out) :
    ∀ b ∈ out, ∃ a ∈ l, f a = .ok b := by
  refine mem_of_mapM_pure (fun a g d made => ?_) Except.ok.inj h
  cases a with
  | error e => cases made
  | ok c => exact ⟨c, rfl, made⟩

theorem error_of_mapM {E : Type} {f : A → Except E B} {l : List A} {e : E} (h : l.mapM f = .error e) :
    ∃ a ∈ l, f a = .error e := by
  induction l with
  | nil => cases h
  | cons a rest ih =>
    rw [List.mapM_cons] at h
    cases first : f a with
    | error e' =>
      rw [first] at h
      cases h
      exact ⟨a, List.mem_cons_self, first⟩
    | ok b =>
      rw [first] at h
      cases later : rest.mapM f with
      | error e' =>
        rw [later] at h
        cases h
        obtain ⟨a', mem, failed⟩ := ih later
        exact ⟨a', List.mem_cons_of_mem _ mem, failed⟩
      | ok bs =>
        rw [later] at h
        cases h

theorem ok_of_bind {E : Type} {m : Except E A} {f : A → Except E B} {b : B} (made : m >>= f = .ok b) :
    ∃ a, m = .ok a ∧ f a = .ok b := by
  cases m with
  | error e => cases made
  | ok a => exact ⟨a, rfl, made⟩

theorem foldlM_ok {E : Type} {f : B → A → Except E B} (inv : List A → B → Prop) {b : B} {l : List A}
    (start : inv [] b)
    (turn : ∀ seen a b, (seen ++ [a]) <+: l → inv seen b → ∃ b', f b a = .ok b' ∧ inv (seen ++ [a]) b') :
    ∃ b', l.foldlM f b = .ok b' ∧ inv l b' := by
  induction l using List.reverseRecOn with
  | nil => exact ⟨b, rfl, start⟩
  | append_singleton seen a ih =>
    obtain ⟨b', before, here⟩ := ih fun seen' a' b part =>
      turn seen' a' b (part.trans (List.prefix_append seen [a]))
    obtain ⟨b'', now, later⟩ := turn seen a b' List.prefix_rfl here
    refine ⟨b'', ?_, later⟩
    rw [List.foldlM_append, before]
    simp only [bind, Except.bind, List.foldlM_cons, List.foldlM_nil, now]
    rfl

theorem foldlM_total {E : Type} {P : E → Prop} {inv : B → Prop} {f : B → A → Except E B} {b : B} {l : List A}
    (start : inv b) (turn : ∀ b, ∀ a ∈ l, inv b → (∃ b', f b a = .ok b' ∧ inv b') ∨ ∃ e, f b a = .error e ∧ P e) :
    (∃ b', l.foldlM f b = .ok b' ∧ inv b') ∨ ∃ e, l.foldlM f b = .error e ∧ P e := by
  induction l generalizing b with
  | nil => exact .inl ⟨b, rfl, start⟩
  | cons a rest ih =>
    rw [List.foldlM_cons]
    rcases turn b a List.mem_cons_self start with ⟨b', made, here⟩ | ⟨e, failed, known⟩
    · rw [made]
      exact ih here fun b a' mem => turn b a' (List.mem_cons_of_mem _ mem)
    · rw [failed]
      exact .inr ⟨e, rfl, known⟩

theorem each_of_foldlM {E : Type} {f : B → A → Except E B} {b b' : B} {l : List A} (h : l.foldlM f b = .ok b') :
    ∀ a ∈ l, ∃ c c', f c a = .ok c' := by
  induction l generalizing b with
  | nil => exact fun a none => absurd none List.not_mem_nil
  | cons a rest ih =>
    rw [List.foldlM_cons] at h
    cases first : f b a with
    | error e =>
      rw [first] at h
      cases h
    | ok c =>
      rw [first] at h
      intro a' mem
      rcases List.mem_cons.mp mem with rfl | inside
      · exact ⟨b, c, first⟩
      · exact ih h a' inside

theorem eq_of_ascending [LinearOrder A] {l l' : List A} (sorted : l.Pairwise (· < ·)) (sorted' : l'.Pairwise (· < ·))
    (same : ∀ a, a ∈ l ↔ a ∈ l') : l = l' := by
  have perm : l.Perm l' := (List.perm_ext_iff_of_nodup sorted.nodup sorted'.nodup).mpr same
  exact perm.eq_of_pairwise (fun a b _ _ below above => absurd below above.asymm) sorted sorted'

theorem mem_take_ascending [LinearOrder A] {l : List A} {a : A} {n : Nat} (sorted : l.Pairwise (· < ·)) :
    a ∈ l.take n ↔ a ∈ l ∧ l.countP (fun b => decide (b < a)) < n := by
  induction l generalizing n with
  | nil => simp
  | cons b rest ih =>
    obtain ⟨first, later⟩ := List.pairwise_cons.mp sorted
    cases n with
    | zero => simp
    | succ n =>
      rw [List.take_succ_cons, List.mem_cons, ih later, List.mem_cons, List.countP_cons]
      constructor
      · rintro (rfl | ⟨inside, few⟩)
        · refine ⟨.inl rfl, ?_⟩
          have none : rest.countP (fun b => decide (b < a)) = 0 :=
            List.countP_eq_zero.mpr fun b mem => by simpa using (first b mem).le
          simp [none]
        · refine ⟨.inr inside, ?_⟩
          rw [if_pos (decide_eq_true (first a inside))]
          omega
      · rintro ⟨rfl | inside, few⟩
        · exact .inl rfl
        · rw [if_pos (decide_eq_true (first a inside))] at few
          exact .inr ⟨inside, by omega⟩

theorem filterMap_ascending [LinearOrder A] {f : A → Option B} {key : B → A} {l l' : List A}
    (owner : ∀ a b, f a = some b → key b = a) (sorted : l.Pairwise (· < ·)) (sorted' : l'.Pairwise (· < ·)) :
    l.filterMap f = l'.filterMap f ↔ ∀ a, f a ≠ none → (a ∈ l ↔ a ∈ l') := by
  constructor
  · intro same a here
    obtain ⟨b, shown⟩ := Option.ne_none_iff_exists'.mp here
    have listed (l : List A) : a ∈ l ↔ b ∈ l.filterMap f := by
      rw [List.mem_filterMap]
      constructor
      · exact fun mem => ⟨a, mem, shown⟩
      · rintro ⟨a', mem, shown'⟩
        rwa [← owner a b shown, owner a' b shown']
    rw [listed l, listed l', same]
  · intro same
    have only (l : List A) : l.filterMap f = (l.filter fun a => (f a).isSome).filterMap f := by
      rw [List.filterMap_filter]
      refine List.filterMap_congr fun a _ => ?_
      cases f a <;> rfl
    have agree : (l.filter fun a => (f a).isSome) = l'.filter fun a => (f a).isSome := by
      refine eq_of_ascending (sorted.filter _) (sorted'.filter _) fun a => ?_
      rw [List.mem_filter, List.mem_filter]
      refine and_congr_left fun here => same a ?_
      exact Option.isSome_iff_ne_none.mp here
    rw [only l, only l', agree]

-- A part that ends further on takes up where the first one stopped.
theorem drop_split (l : List A) {first stop : Nat} (le : first ≤ stop) :
    l.drop first = (l.take stop).drop first ++ l.drop stop := by
  have parts := List.take_append_drop stop l
  nth_rewrite 1 [← parts]
  rw [List.drop_append, List.length_take]
  by_cases inside : stop ≤ l.length
  next => rw [Nat.min_eq_left inside, Nat.sub_eq_zero_of_le le, List.drop_zero]
  next => rw [List.drop_eq_nil_of_le (Nat.le_of_not_le inside), List.drop_nil]

theorem drop_take_split (l : List A) {first stop last : Nat} (le : first ≤ stop) (le' : stop ≤ last) :
    (l.take last).drop first = (l.take stop).drop first ++ (l.take last).drop stop := by
  rw [drop_split (l.take last) le, List.take_take, Nat.min_eq_left le']

theorem split_at_last {P : A → Prop} {l : List A} (some : ∃ a ∈ l, P a) :
    ∃ before a after, l = before ++ a :: after ∧ P a ∧ ∀ b ∈ after, ¬ P b := by
  induction l with
  | nil => simp at some
  | cons a rest ih =>
    by_cases later : ∃ b ∈ rest, P b
    · obtain ⟨before, b, after, rfl, here, none⟩ := ih later
      exact ⟨a :: before, b, after, rfl, here, none⟩
    · have here : P a := by
        obtain ⟨b, mem, holds⟩ := some
        rcases List.mem_cons.mp mem with rfl | inside
        · exact holds
        · exact absurd ⟨b, inside, holds⟩ later
      exact ⟨[], a, rest, rfl, here, fun b mem holds => later ⟨b, mem, holds⟩⟩

theorem index_unique {p : A → Bool} {l : List A} (once : l.countP p ≤ 1) {i j : Nat} {a b : A}
    (atI : l[i]? = some a) (atJ : l[j]? = some b) (holdsA : p a = true) (holdsB : p b = true) : i = j := by
  induction l generalizing i j with
  | nil => simp at atI
  | cons c rest ih =>
    have first {n : Nat} {d : A} (here : p c = true) (later : rest[n]? = some d) (holds : p d = true) : False := by
      have positive : 0 < rest.countP p :=
        List.countP_pos_iff.mpr ⟨d, List.mem_of_getElem? later, holds⟩
      rw [List.countP_cons_of_pos here] at once
      omega
    cases i with
    | zero =>
      obtain rfl : c = a := Option.some.inj atI
      cases j with
      | zero => rfl
      | succ j => exact (first holdsA atJ holdsB).elim
    | succ i =>
      cases j with
      | zero =>
        obtain rfl : c = b := Option.some.inj atJ
        exact (first holdsB atI holdsA).elim
      | succ j =>
        have fewer : rest.countP p ≤ 1 := (List.sublist_cons_self c rest).countP_le.trans once
        exact congrArg Nat.succ (ih fewer atI atJ)

-- In descending order, position `i` holds a value that at least `i + 1` elements reach.
theorem reach_of_sorted {l : List Nat} {i : Nat} (inside : i < l.length) :
    i + 1 ≤ l.countP fun x => (l.insertionSort (· ≥ ·)).getD i 0 ≤ x := by
  have perm := List.perm_insertionSort (· ≥ ·) l
  have sorted := List.pairwise_insertionSort (· ≥ ·) l
  have size := List.length_insertionSort (· ≥ ·) l
  rw [← perm.countP_eq]
  generalize l.insertionSort (· ≥ ·) = m at sorted size
  rw [← size] at inside
  have front : (m.take (i + 1)).countP (fun x => m.getD i 0 ≤ x) = (m.take (i + 1)).length := by
    rw [List.countP_eq_length]
    intro x mem
    obtain ⟨j, hj, rfl⟩ := List.mem_take_iff_getElem.mp mem
    have here : m.getD i 0 = m[i] := by simp [List.getD_eq_getElem?_getD, inside]
    rw [here]
    rcases Nat.lt_or_eq_of_le (show j ≤ i by omega) with before | rfl
    · exact decide_eq_true (List.pairwise_iff_getElem.mp sorted j i _ inside before)
    · exact decide_eq_true le_rfl
  have total : (m.take (i + 1)).length = i + 1 := by
    rw [List.length_take]
    omega
  calc i + 1 = (m.take (i + 1)).countP (fun x => m.getD i 0 ≤ x) := by rw [front, total]
    _ ≤ m.countP (fun x => m.getD i 0 ≤ x) := (List.take_sublist _ _).countP_le

end Gems.Lib
