import Gems.Lib.Search

set_option autoImplicit false

namespace Gems.Lib

variable {K V C : Type} [LinearOrder K]

def Within (lo hi : Option K) (key : K) : Prop := (∀ l ∈ lo, l ≤ key) ∧ ∀ h ∈ hi, key < h

-- Where a separator may stand: each side has room for a key.
def Between (lo hi : Option K) (key : K) : Prop := (∀ l ∈ lo, l < key) ∧ ∀ h ∈ hi, key < h

-- `tree child lo hi entries own`: the tree at `child` holds `entries`, all within the bounds, in the
-- pages `own`.
abbrev Holds (K V C : Type) := C → Option K → Option K → List (K × V) → List C → Prop

/-- A row of trees with a separator between any two neighbours. -/
inductive Forest (tree : Holds K V C) :
    List C → List K → Option K → Option K → List (K × V) → List C → Prop where
  | one {c : C} {lo hi : Option K} {entries : List (K × V)} {own : List C} :
      tree c lo hi entries own → Forest tree [c] [] lo hi entries own
  | cons {c : C} {cs : List C} {k : K} {ks : List K} {lo hi : Option K}
      {entries rest : List (K × V)} {own owns : List C} :
      tree c lo (some k) entries own → Between lo hi k → Forest tree cs ks (some k) hi rest owns →
      Forest tree (c :: cs) (k :: ks) lo hi (entries ++ rest) (own ++ owns)

/-- The entries of every tree are sorted and within its bounds. -/
structure Ordered (tree : Holds K V C) : Prop where
  within : ∀ {c lo hi entries own}, tree c lo hi entries own → ∀ e ∈ entries, Within lo hi e.1
  sorted : ∀ {c lo hi entries own}, tree c lo hi entries own → Sorted entries

variable {tree tree' : Holds K V C} {children own : List C} {keys : List K} {lo hi : Option K}
  {entries : List (K × V)} {key sep : K}

section Bounds

theorem Within.low (h : Within lo (some sep) key) (between : Between lo hi sep) :
    Within lo hi key :=
  ⟨h.1, fun h' mem => (h.2 sep rfl).trans (between.2 h' mem)⟩

theorem Within.high (h : Within (some sep) hi key) (between : Between lo hi sep) :
    Within lo hi key :=
  ⟨fun l mem => (between.1 l mem).le.trans (h.1 sep rfl), h.2⟩

theorem Between.high (h : Between (some sep) hi key) (between : Between lo hi sep) :
    Between lo hi key :=
  ⟨fun l mem => (between.1 l mem).trans (h.1 sep rfl), h.2⟩

end Bounds

theorem Forest.length (h : Forest tree children keys lo hi entries own) :
    children.length = keys.length + 1 := by
  induction h with
  | one => rfl
  | cons _ _ _ ih => rw [List.length_cons, List.length_cons, ih]

theorem Forest.ordered (ordered : Ordered tree) (h : Forest tree children keys lo hi entries own) :
    (∀ e ∈ entries, Within lo hi e.1) ∧ Sorted entries := by
  induction h with
  | one holds => exact ⟨ordered.within holds, ordered.sorted holds⟩
  | cons holds between _ ih =>
    have low := ordered.within holds
    constructor
    · intro e mem
      rcases List.mem_append.mp mem with left | right
      · exact (low e left).low between
      · exact (ih.1 e right).high between
    · refine List.pairwise_append.mpr ⟨ordered.sorted holds, ih.2, fun a left b right => ?_⟩
      exact ((low a left).2 _ rfl).trans_le ((ih.1 b right).1 _ rfl)

-- Trees in the pages `own` stay as they are.
def Carries (tree : Holds K V C) (own : List C) (tree' : Holds K V C) : Prop :=
  ∀ c lo hi entries part, tree c lo hi entries part → part ⊆ own → tree' c lo hi entries part

omit [LinearOrder K] in
theorem Carries.subset {part : List C} (h : Carries tree own tree') (sub : part ⊆ own) :
    Carries tree part tree' :=
  fun c lo hi entries part' here sub' => h c lo hi entries part' here fun _ mem => sub (sub' mem)

theorem Forest.carry (h : Forest tree children keys lo hi entries own)
    (carries : Carries tree own tree') : Forest tree' children keys lo hi entries own := by
  induction h with
  | one holds => exact .one (carries _ _ _ _ _ holds (List.Subset.refl _))
  | cons holds between _ ih =>
    refine .cons (carries _ _ _ _ _ holds (List.subset_append_left _ _)) between ?_
    exact ih (carries.subset (List.subset_append_right _ _))

theorem Forest.holds_of_mem (h : Forest tree children keys lo hi entries own) {c : C}
    (mem : c ∈ children) :
    ∃ lo' hi' entries' own', tree c lo' hi' entries' own' ∧ own' ⊆ own := by
  induction h with
  | one holds =>
    obtain rfl := List.mem_singleton.mp mem
    exact ⟨_, _, _, _, holds, List.Subset.refl _⟩
  | cons holds _ _ ih =>
    rcases List.mem_cons.mp mem with rfl | later
    · exact ⟨_, _, _, _, holds, List.subset_append_left _ _⟩
    · obtain ⟨lo', hi', entries', own', holds', sub⟩ := ih later
      exact ⟨lo', hi', entries', own', holds', fun _ inside => List.mem_append_right _ (sub inside)⟩

theorem Forest.mapM_ok {E B : Type} {f : C → Except E (List B)}
    (part : List (K × V) → List C → List B)
    (append : ∀ e e' o o', part (e ++ e') (o ++ o') = part e o ++ part e' o')
    (h : Forest tree children keys lo hi entries own)
    (each : ∀ c lo hi inner innerOwn, tree c lo hi inner innerOwn → innerOwn ⊆ own →
      f c = .ok (part inner innerOwn)) :
    ∃ parts, children.mapM f = .ok parts ∧ parts.flatten = part entries own := by
  induction h with
  | one holds =>
    exact ⟨_, by rw [List.mapM_cons, each _ _ _ _ _ holds (List.Subset.refl _)]; rfl, by simp⟩
  | cons holds _ _ ih =>
    obtain ⟨parts, collected, flat⟩ := ih fun c lo hi inner innerOwn here sub =>
      each c lo hi inner innerOwn here fun _ mem => List.mem_append_right _ (sub mem)
    refine ⟨_ :: parts, ?_, by rw [List.flatten_cons, flat, append]⟩
    rw [List.mapM_cons, collected, each _ _ _ _ _ holds (List.subset_append_left _ _)]
    rfl

/-- The child that a descent for `key` takes, and what becomes of the row when the child changes. -/
structure Focus (tree : Holds K V C) (children : List C) (keys : List K) (lo hi : Option K)
    (entries : List (K × V)) (own : List C) (key : K) (idx : Nat) (child : C) (lo' hi' : Option K)
    (inner : List (K × V)) (innerOwn : List C) (before after : List (K × V))
    (ownBefore ownAfter : List C) : Prop where
  here : children[idx]? = some child
  holds : tree child lo' hi' inner innerOwn
  within : Within lo' hi' key
  contents : entries = before ++ inner ++ after
  pages : own = ownBefore ++ innerOwn ++ ownAfter
  below : ∀ e ∈ before, e.1 < key
  above : ∀ e ∈ after, key < e.1
  replace : ∀ {tree' : Holds K V C}, Carries tree own tree' → ∀ {c inner' own'},
    tree' c lo' hi' inner' own' → Forest tree' (children.set idx c) keys lo hi
      (before ++ inner' ++ after) (ownBefore ++ own' ++ ownAfter)
  split : ∀ {tree' : Holds K V C}, Carries tree own tree' →
    ∀ {left right sep innerL innerR ownL ownR}, tree' left lo' (some sep) innerL ownL →
      Between lo' hi' sep → tree' right (some sep) hi' innerR ownR →
      Forest tree' ((children.set idx left).insertIdx (idx + 1) right) (keys.insertIdx idx sep) lo hi
        (before ++ (innerL ++ innerR) ++ after) (ownBefore ++ (ownL ++ ownR) ++ ownAfter)

theorem Forest.focus (ordered : Ordered tree) (h : Forest tree children keys lo hi entries own)
    (within : Within lo hi key) :
    ∃ child lo' hi' inner innerOwn before after ownBefore ownAfter,
      Focus tree children keys lo hi entries own key (partitionPoint (fun k => decide (k ≤ key)) keys)
        child lo' hi' inner innerOwn before after ownBefore ownAfter := by
  induction h with
  | @one c lo hi entries own holds =>
    rw [show partitionPoint (fun k => decide (k ≤ key)) [] = 0 from rfl]
    refine ⟨c, lo, hi, entries, own, [], [], [], [], ?_⟩
    exact
      { here := rfl
        holds := holds
        within := within
        contents := by simp
        pages := by simp
        below := by simp
        above := by simp
        replace := fun _ _ _ _ here => by simpa using Forest.one here
        split := fun _ _ _ _ _ _ _ _ left between right => by
          simpa using Forest.cons left between (.one right) }
  | @cons c cs k ks lo hi entries rest own owns holds between later ih =>
    by_cases past : k ≤ key
    · obtain ⟨child, lo', hi', inner, innerOwn, before, after, ownBefore, ownAfter, focus⟩ :=
        ih ⟨fun l mem => Option.some.inj mem ▸ past, within.2⟩
      have point : partitionPoint (fun k => decide (k ≤ key)) (k :: ks) =
          partitionPoint (fun k => decide (k ≤ key)) ks + 1 := by
        simp [partitionPoint, past]
      rw [point]
      refine ⟨child, lo', hi', inner, innerOwn, entries ++ before, after, own ++ ownBefore, ownAfter, ?_⟩
      have both {tree' : Holds K V C} (carries : Carries tree (own ++ owns) tree') :
          tree' c lo (some k) entries own ∧ Carries tree owns tree' :=
        ⟨carries _ _ _ _ _ holds (List.subset_append_left _ _),
          carries.subset (List.subset_append_right _ _)⟩
      exact
        { here := focus.here
          holds := focus.holds
          within := focus.within
          contents := by simp only [focus.contents, List.append_assoc]
          pages := by simp only [focus.pages, List.append_assoc]
          below := by
            intro e mem
            rcases List.mem_append.mp mem with left | right
            · exact ((ordered.within holds e left).2 k rfl).trans_le past
            · exact focus.below e right
          above := focus.above
          replace := fun carries _ _ _ new => by
            have row := Forest.cons (both carries).1 between (focus.replace (both carries).2 new)
            simpa only [List.set_cons_succ, List.insertIdx_succ_cons, List.append_assoc] using row
          split := fun carries _ _ _ _ _ _ _ left sep right => by
            have row := Forest.cons (both carries).1 between
              (focus.split (both carries).2 left sep right)
            simpa only [List.set_cons_succ, List.insertIdx_succ_cons, List.append_assoc] using row }
    · have before : key < k := not_le.mp past
      have point : partitionPoint (fun k => decide (k ≤ key)) (k :: ks) = 0 := by
        simp [partitionPoint, past]
      rw [point]
      refine ⟨c, lo, some k, entries, own, [], rest, [], owns, ?_⟩
      exact
        { here := rfl
          holds := holds
          within := ⟨within.1, fun h mem => Option.some.inj mem ▸ before⟩
          contents := by simp
          pages := by simp
          below := by simp
          above := fun e mem => before.trans_le (((later.ordered ordered).1 e mem).1 k rfl)
          replace := fun carries _ _ _ new =>
            .cons new between (later.carry (carries.subset (List.subset_append_right _ _)))
          split := fun carries _ _ sep _ _ _ _ left sepBetween right => by
            have row := Forest.cons right
              ⟨fun l mem => Option.some.inj mem ▸ sepBetween.2 k rfl, between.2⟩
              (later.carry (carries.subset (List.subset_append_right _ _)))
            have whole := Forest.cons left
              ⟨sepBetween.1, fun h mem => (sepBetween.2 k rfl).trans (between.2 h mem)⟩ row
            simpa using whole }

theorem Forest.cut (h : Forest tree children keys lo hi entries own) {mid : Nat}
    (at_ : keys[mid]? = some sep) :
    ∃ entriesL entriesR ownL ownR,
      Forest tree (children.take (mid + 1)) (keys.take mid) lo (some sep) entriesL ownL ∧
      Between lo hi sep ∧
      Forest tree (children.drop (mid + 1)) (keys.drop (mid + 1)) (some sep) hi entriesR ownR ∧
      entries = entriesL ++ entriesR ∧ own = ownL ++ ownR := by
  induction h generalizing mid with
  | one => simp at at_
  | @cons c cs k ks lo hi entries rest own owns holds between later ih =>
    cases mid with
    | zero =>
      obtain rfl : k = sep := by simpa using at_
      exact ⟨entries, rest, own, owns, .one holds, between, later, rfl, rfl⟩
    | succ mid =>
      obtain ⟨entriesL, entriesR, ownL, ownR, left, here, right, rfl, rfl⟩ :=
        ih (by simpa using at_)
      refine ⟨entries ++ entriesL, entriesR, own ++ ownL, ownR, ?_, here.high between, right, ?_, ?_⟩
      · exact .cons holds ⟨between.1, fun h mem => Option.some.inj mem ▸ here.1 k rfl⟩ left
      · rw [List.append_assoc]
      · rw [List.append_assoc]

end Gems.Lib
