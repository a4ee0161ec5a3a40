import Gems.Engine.Synced

set_option autoImplicit false

namespace Gems.Engine

open Lib Catalog Index Storage

variable {os : PageSize} {s : Store} {slots : Slots} {ords : Ordinals} {ids : Reverse} {map : Entities}
  {depth fuel : Nat} {id : Tuid} {ord : Ordinal}

section Filters

def typeName : Query.Literal → Option String
  | .ident name | .str name => some name
  | _ => none

-- No filter, or a top-level `type IN (...)` of identifiers and strings.
def Planned : Option Query.Expr → Prop
  | none => True
  | some (.in_ field values) =>
    eqIgnoreAsciiCase field "type" = true ∧ ∀ value ∈ values, (typeName value).isSome = true
  | some _ => False

def Accepted (q : Query) : Prop :=
  eqIgnoreAsciiCase q.from_ "entities" = true ∧ q.orderBy = [] ∧ Planned q.filter

-- The type names that the filter lists.
def listedNames : Option Query.Expr → List String
  | some (.in_ _ values) => values.filterMap typeName
  | _ => []

def Store.Answering (fuel : Nat) (s : Store) (filter : Option Query.Expr) : Prop :=
  ∀ name ∈ listedNames filter, ∃ found, s.findEntityTypeByName fuel name = .ok found

-- One of the names leads to the type.
def Store.Leads (fuel : Nat) (s : Store) (names : List String) (typeId : Tuid) : Prop :=
  ∃ name ∈ names, s.findEntityTypeByName fuel name = .ok (some typeId)

def Store.Selected (fuel : Nat) (s : Store) (filter : Option Query.Expr) (id : Tuid) : Prop :=
  ∃ e, s.get fuel id = .ok (some e) ∧ (filter = none ∨ s.Leads fuel (listedNames filter) e.1.schemaRef)

theorem matchValue_named {value : Query.Literal} {name : String} (named : typeName value = some name)
    {found : Option Tuid} (lookup : s.findEntityTypeByName fuel name = .ok found) (matched : Finset Ordinal) :
    s.matchValue fuel matched value =
      .ok (found.elim matched fun typeId => matched ∪ s.bySchemaRef.get (schemaRefKey typeId)) := by
  cases value with
  | str text | ident text =>
    obtain rfl := Option.some.inj named
    rw [Store.matchValue, lookup]
    cases found <;> rfl
  | num bits => cases named
  | bool b => cases named

theorem matchValue_unnamed {value : Query.Literal} (unnamed : typeName value = none) (matched : Finset Ordinal) :
    s.matchValue fuel matched value =
      .error (invalid "type names in `type IN (...)` must be identifiers or strings") := by
  cases value with
  | str text | ident text => cases unnamed
  | num bits => rfl
  | bool b => rfl

-- The ordinals of the entities of a type that one of the names leads to.
def Matched (fuel : Nat) (s : Store) (ords : Ordinals) (map : Entities) (names : List String) (ord : Ordinal) : Prop :=
  ∃ id e, map id = some e ∧ ords id = some ord ∧ s.Leads fuel names e.1.schemaRef

theorem matchValue_matched (tracks : Tracks s.bySchemaRef schemaRefField ords map) {seen : List Query.Literal}
    {value : Query.Literal} {name : String} (named : typeName value = some name) {found : Option Tuid}
    (lookup : s.findEntityTypeByName fuel name = .ok found) {matched : Finset Ordinal}
    (before : ∀ ord, ord ∈ matched ↔ Matched fuel s ords map (seen.filterMap typeName) ord) :
    ∃ matched', s.matchValue fuel matched value = .ok matched' ∧
      ∀ ord, ord ∈ matched' ↔ Matched fuel s ords map ((seen ++ [value]).filterMap typeName) ord := by
  have leads (typeId : Tuid) : s.Leads fuel ((seen ++ [value]).filterMap typeName) typeId ↔
      s.Leads fuel (seen.filterMap typeName) typeId ∨ found = some typeId := by
    simp [Store.Leads, List.filterMap_append, named, or_and_right, exists_or, lookup]
  have split (ord : Ordinal) : Matched fuel s ords map ((seen ++ [value]).filterMap typeName) ord ↔
      ord ∈ matched ∨ ∃ id e, map id = some e ∧ ords id = some ord ∧ found = some e.1.schemaRef := by
    simp only [before, Matched, leads, and_or_left, exists_or]
  refine ⟨_, matchValue_named named lookup matched, fun ord => ?_⟩
  rw [split]
  cases found with
  | none => simp
  | some typeId =>
    rw [Option.elim_some, Finset.mem_union, tracks]
    simp only [schemaRefField, Option.some.injEq, schemaRefKey_injective.eq_iff, eq_comm]

theorem Linked.evalTypeIn (linked : Linked os s slots ords ids map depth)
    (tracks : Tracks s.bySchemaRef schemaRefField ords map) (enough : depth ≤ fuel) {filter : Query.Expr}
    (planned : Planned (some filter)) (answering : s.Answering fuel (some filter)) :
    ∃ list, s.evalTypeInFilter fuel filter = .ok list ∧ Names list (s.Selected fuel (some filter)) := by
  cases filter with
  | in_ field values =>
    obtain ⟨onType, named⟩ := planned
    obtain ⟨matched, folded, all⟩ := foldlM_ok (f := s.matchValue fuel)
      (fun seen matched => ∀ ord, ord ∈ matched ↔ Matched fuel s ords map (seen.filterMap typeName) ord)
      (b := (∅ : Finset Ordinal)) (l := values)
      (by simp [Matched, Store.Leads]) fun seen value matched part before => by
        have mem : value ∈ values := part.subset (by simp)
        obtain ⟨name, here⟩ := Option.isSome_iff_exists.mp (named value mem)
        obtain ⟨found, lookup⟩ := answering name (List.mem_filterMap.mpr ⟨value, mem, here⟩)
        exact matchValue_matched tracks here lookup before
    have owned : ∀ ord ∈ matched, ∃ id, map id ≠ none ∧ ords id = some ord := by
      intro ord mem
      obtain ⟨id, e, known, here, -⟩ := (all ord).mp mem
      exact ⟨id, by simp [known], here⟩
    obtain ⟨list, made, nodup, mem⟩ := linked.resolve enough owned
    refine ⟨list, ?_, nodup, fun id => (mem id).trans ?_⟩
    · rw [Store.evalTypeInFilter, if_pos onType, folded]
      exact made
    · simp only [Store.Selected, linked.sound.get enough, Except.ok.injEq, reduceCtorEq, false_or]
      constructor
      · rintro ⟨present, ord, inside, here⟩
        obtain ⟨id', e, known, here', leads⟩ := (all ord).mp inside
        obtain rfl := linked.apart present here id' (by simp [known]) here'
        exact ⟨e, known, leads⟩
      · rintro ⟨e, known, leads⟩
        have present : map id ≠ none := by simp [known]
        obtain ⟨ord, here⟩ :=
          Option.ne_none_iff_exists'.mp (linked.sound.known id ((linked.sound.present_iff id).mpr present))
        exact ⟨present, ord, (all ord).mpr ⟨id, e, known, here, leads⟩, here⟩
  | _ => exact planned.elim

theorem planned_of_ok {filter : Query.Expr} {list : List Tuid}
    (h : s.evalTypeInFilter fuel filter = .ok list) : Planned (some filter) := by
  cases filter with
  | in_ field values =>
    rw [Store.evalTypeInFilter] at h
    split at h
    next onType =>
      refine ⟨onType, fun value mem => ?_⟩
      cases folded : values.foldlM (s.matchValue fuel) ∅ with
      | error e =>
        rw [folded] at h
        cases h
      | ok matched =>
        obtain ⟨before, after, made⟩ := each_of_foldlM folded value mem
        by_contra unnamed
        rw [matchValue_unnamed (Option.not_isSome_iff_eq_none.mp unnamed)] at made
        cases made
    next other => cases h
  | _ => cases h

theorem answering_of_ok {filter : Query.Expr} {list : List Tuid} (h : s.evalTypeInFilter fuel filter = .ok list) :
    s.Answering fuel (some filter) := by
  intro name mem
  cases filter with
  | in_ field values =>
    obtain ⟨value, inside, named⟩ := List.mem_filterMap.mp mem
    rw [Store.evalTypeInFilter] at h
    split at h
    next onType =>
      cases folded : values.foldlM (s.matchValue fuel) ∅ with
      | error e =>
        rw [folded] at h
        cases h
      | ok matched =>
        obtain ⟨before, after, made⟩ := each_of_foldlM folded value inside
        cases lookup : s.findEntityTypeByName fuel name with
        | ok found => exact ⟨found, rfl⟩
        | error e =>
          cases value with
          | str text | ident text =>
            obtain rfl := Option.some.inj named
            rw [Store.matchValue, lookup] at made
            cases made
          | num bits => cases named
          | bool b => cases named
    next other => cases h
  | _ => cases mem

end Filters

section Queries

theorem Sound.scanIds (sound : Sound os s slots ords ids map depth) (enough : depth ≤ fuel) :
    ∃ entities, s.scanAll fuel = .ok entities ∧
      Names (entities.map fun entity => entity.1.id) fun id => map id ≠ none := by
  obtain ⟨entities, scanned, sorted, all⟩ := sound.scan enough
  refine ⟨entities, scanned, ?_, fun id => ?_⟩
  · exact List.pairwise_map.mpr (sorted.imp ne_of_lt)
  · rw [List.mem_map]
    constructor
    · rintro ⟨e, mem, rfl⟩
      rw [(all e).mp mem]
      simp
    · intro present
      obtain ⟨e, known⟩ := Option.ne_none_iff_exists'.mp present
      have owner := sound.owner known
      exact ⟨e, (all e).mpr (owner ▸ known), owner⟩

theorem Names.sorted {list : List Tuid} {these : Tuid → Prop} (names : Names list these) :
    (list.insertionSort (· ≤ ·)).Pairwise (· < ·) ∧ ∀ id, id ∈ list.insertionSort (· ≤ ·) ↔ these id := by
  have perm := List.perm_insertionSort (· ≤ ·) list
  have ascending := List.pairwise_insertionSort (· ≤ ·) list
  have nodup : (list.insertionSort (· ≤ ·)).Nodup := perm.nodup_iff.mpr names.1
  exact ⟨ascending.imp₂ (fun _ _ le ne => lt_of_le_of_ne le ne) nodup,
    fun id => perm.mem_iff.trans (names.2 id)⟩

theorem query_of_ids {q : Query} (fromEntities : eqIgnoreAsciiCase q.from_ "entities" = true)
    (unordered : q.orderBy = []) : s.query fuel q = (do
      let ids ← match q.filter with
        | none => do
          let entities ← s.scanAll fuel
          pure (entities.map fun entity => entity.1.id)
        | some filter => s.evalTypeInFilter fuel filter
      pure (Store.truncate q.limit (ids.insertionSort (· ≤ ·)))) := by
  rw [Store.query, fromEntities, unordered]
  rfl

theorem accepted_of_ok {q : Query} {list : List Tuid} (h : s.query fuel q = .ok list) : Accepted q := by
  by_cases fromEntities : eqIgnoreAsciiCase q.from_ "entities" = true
  · by_cases unordered : q.orderBy = []
    · refine ⟨fromEntities, unordered, ?_⟩
      rw [query_of_ids fromEntities unordered] at h
      cases filter : q.filter with
      | none => trivial
      | some expr =>
        rw [filter] at h
        dsimp only at h
        cases made : s.evalTypeInFilter fuel expr with
        | error e =>
          rw [made] at h
          cases h
        | ok ids => exact planned_of_ok made
    · have some_ : q.orderBy.isEmpty = false := by simpa using unordered
      rw [Store.query, fromEntities, some_] at h
      cases h
  · rw [Store.query, Bool.eq_false_iff.mpr fromEntities] at h
    cases h

theorem answering_of_query {q : Query} {list : List Tuid} (h : s.query fuel q = .ok list) :
    s.Answering fuel q.filter := by
  obtain ⟨fromEntities, unordered, -⟩ := accepted_of_ok h
  rw [query_of_ids fromEntities unordered] at h
  cases filter : q.filter with
  | none => exact fun name none => absurd none List.not_mem_nil
  | some expr =>
    rw [filter] at h
    dsimp only at h
    cases made : s.evalTypeInFilter fuel expr with
    | error e =>
      rw [made] at h
      cases h
    | ok ids => exact answering_of_ok made

theorem Linked.query (linked : Linked os s slots ords ids map depth)
    (tracks : Tracks s.bySchemaRef schemaRefField ords map) (enough : depth ≤ fuel) {q : Query}
    (accepted : Accepted q) (answering : s.Answering fuel q.filter) :
    ∃ all : List Tuid, all.Pairwise (· < ·) ∧ (∀ id, id ∈ all ↔ s.Selected fuel q.filter id) ∧
      s.query fuel q = .ok (Store.truncate q.limit all) := by
  obtain ⟨fromEntities, unordered, planned⟩ := accepted
  rw [query_of_ids fromEntities unordered]
  cases filter : q.filter with
  | none =>
    obtain ⟨entities, scanned, names⟩ := linked.sound.scanIds enough
    refine ⟨_, names.sorted.1, fun id => (names.sorted.2 id).trans ?_, ?_⟩
    · simp [Store.Selected, linked.sound.get enough, Option.ne_none_iff_exists']
    · rw [scanned]
      rfl
  | some expr =>
    rw [filter] at planned answering
    obtain ⟨list, made, names⟩ := linked.evalTypeIn tracks enough planned answering
    refine ⟨_, names.sorted.1, names.sorted.2, ?_⟩
    dsimp only
    rw [made]
    rfl

end Queries

end Gems.Engine
