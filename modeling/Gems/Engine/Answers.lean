import Gems.Engine.Filters
import Gems.Engine.Settled

set_option autoImplicit false

namespace Gems.Engine

open Lib Catalog Index Storage

variable {os : PageSize} {s s' : Store} {slots : Slots} {ords : Ordinals} {ids : Reverse} {map raw : Entities}
  {depth fuel : Nat} {id : Tuid} {ord : Ordinal} {calls : List Call}

section Filters

def OfType (map : Entities) (values : List Query.Literal) (id : Tuid) : Prop :=
  ∃ e, map id = some e ∧ ∃ value ∈ values, ∃ name, typeName value = some name ∧ IsType map name e.1.schemaRef

def Selects (map : Entities) (filter : Option Query.Expr) (id : Tuid) : Prop :=
  match filter with
  | some (.in_ _ values) => OfType map values id
  | _ => map id ≠ none

/-- An accepted query lists what it selects, ascending and up to the limit; every other one is an error. -/
structure Answers (fuel : Nat) (s : Store) (map : Entities) (q : Query) : Prop where
  accepted : Accepted q → ∃ all : List Tuid, all.Pairwise (· < ·) ∧ (∀ id, id ∈ all ↔ Selects map q.filter id) ∧
    s.query fuel q = .ok (Store.truncate q.limit all)
  refused : ¬ Accepted q → ∃ e, s.query fuel q = .error (.raised e)

-- No two entity types share a name.
def Distinct (map : Entities) : Prop := ∀ name id id', IsType map name id → IsType map name id' → id = id'

theorem Distinct.found (distinct : Distinct map) {name : String} {found : Option Tuid}
    (type_ : ∀ id, found = some id → IsType map name id) (missing : found = none → ∀ id, ¬ IsType map name id)
    (id : Tuid) : found = some id ↔ IsType map name id := by
  refine ⟨type_ id, fun isType => ?_⟩
  cases found with
  | none => exact absurd isType (missing rfl id)
  | some id' => rw [distinct name id' id (type_ id' rfl) isType]

def Invalid (e : Fault) : Prop := ∃ detail, e = invalid detail

theorem Synced.evalTypeIn_total (synced : Synced os s slots ords ids map depth) (enough : depth ≤ fuel)
    (filter : Query.Expr) :
    (∃ list, s.evalTypeInFilter fuel filter = .ok list ∧ list.Nodup) ∨
      ∃ e, s.evalTypeInFilter fuel filter = .error e ∧ Invalid e := by
  cases filter with
  | in_ field values =>
    rw [Store.evalTypeInFilter]
    split
    next onType =>
      let Owned (matched : Finset Ordinal) : Prop := ∀ ord ∈ matched, ∃ id, map id ≠ none ∧ ords id = some ord
      have start : Owned ∅ := by simp [Owned]
      rcases foldlM_total (P := Invalid) (f := s.matchValue fuel) (l := values) start fun matched value _ owned => by
        cases named : typeName value with
        | none => exact .inr ⟨_, matchValue_unnamed named matched, _, rfl⟩
        | some name =>
          obtain ⟨found, lookup, -⟩ := synced.findEntityTypeByName enough name
          refine .inl ⟨_, matchValue_named named lookup matched, ?_⟩
          cases found with
          | none => exact owned
          | some typeId =>
            intro ord mem
            rcases Finset.mem_union.mp mem with old | new
            · exact owned ord old
            · obtain ⟨id, e, known, here, -⟩ := (synced.coherent.bySchemaRef _ ord).mp new
              exact ⟨id, by simp [known], here⟩ with ⟨matched, folded, owned⟩ | ⟨e, failed, known⟩
      · obtain ⟨list, made, nodup, -⟩ := synced.linked.resolve enough owned
        rw [folded]
        exact .inl ⟨list, made, nodup⟩
      · rw [failed]
        exact .inr ⟨e, rfl, known⟩
    next other => exact .inr ⟨_, rfl, _, rfl⟩
  | _ => exact .inr ⟨_, rfl, _, rfl⟩

end Filters

section Planner

theorem Synced.query_total (synced : Synced os s slots ords ids map depth) (enough : depth ≤ fuel) (q : Query) :
    (∃ list, s.query fuel q = .ok list) ∨ ∃ e, s.query fuel q = .error e ∧ Invalid e := by
  by_cases fromEntities : eqIgnoreAsciiCase q.from_ "entities" = true
  · by_cases unordered : q.orderBy = []
    · rw [query_of_ids fromEntities unordered]
      cases q.filter with
      | none =>
        obtain ⟨entities, scanned, -⟩ := synced.sound.scanIds enough
        dsimp only
        rw [scanned]
        exact .inl ⟨_, rfl⟩
      | some filter =>
        dsimp only
        rcases synced.evalTypeIn_total enough filter with ⟨list, made, -⟩ | ⟨e, failed, known⟩
        · rw [made]
          exact .inl ⟨_, rfl⟩
        · rw [failed]
          exact .inr ⟨e, rfl, known⟩
    · have some_ : q.orderBy.isEmpty = false := by simpa using unordered
      rw [Store.query, fromEntities, some_]
      exact .inr ⟨_, rfl, _, rfl⟩
  · rw [Store.query, Bool.eq_false_iff.mpr fromEntities]
    exact .inr ⟨_, rfl, _, rfl⟩

theorem Synced.answering (synced : Synced os s slots ords ids map depth) (enough : depth ≤ fuel)
    (filter : Option Query.Expr) : s.Answering fuel filter := by
  intro name _
  obtain ⟨found, lookup, -⟩ := synced.findEntityTypeByName enough name
  exact ⟨found, lookup⟩

theorem Synced.selected (synced : Synced os s slots ords ids map depth) (enough : depth ≤ fuel)
    (distinct : Distinct map) {filter : Option Query.Expr} (planned : Planned filter) (id : Tuid) :
    s.Selected fuel filter id ↔ Selects map filter id := by
  have leads (name : String) (typeId : Tuid) :
      s.findEntityTypeByName fuel name = .ok (some typeId) ↔ IsType map name typeId := by
    obtain ⟨found, lookup, type_, missing⟩ := synced.findEntityTypeByName enough name
    rw [lookup, Except.ok.injEq, distinct.found type_ missing]
  simp only [Store.Selected, synced.sound.get enough, Except.ok.injEq]
  cases filter with
  | none => simp [Selects, Option.ne_none_iff_exists']
  | some expr =>
    cases expr with
    | in_ field values =>
      simp only [reduceCtorEq, false_or, Store.Leads, listedNames, leads, List.mem_filterMap, Selects, OfType]
      constructor
      · rintro ⟨e, known, name, ⟨value, mem, named⟩, isType⟩
        exact ⟨e, known, value, mem, name, named, isType⟩
      · rintro ⟨e, known, value, mem, name, named, isType⟩
        exact ⟨e, known, name, ⟨value, mem, named⟩, isType⟩
    | _ => exact planned.elim

theorem Synced.answers (synced : Synced os s slots ords ids map depth) (enough : depth ≤ fuel)
    (distinct : Distinct map) (q : Query) : Answers fuel s map q where
  accepted := by
    intro accepted
    obtain ⟨all, sorted, mem, made⟩ :=
      synced.linked.query synced.coherent.bySchemaRef enough accepted (synced.answering enough q.filter)
    refine ⟨all, sorted, fun id => (mem id).trans ?_, made⟩
    exact synced.selected enough distinct accepted.2.2 id
  refused := by
    intro refused
    rcases synced.query_total enough q with ⟨list, made⟩ | ⟨e, failed, detail, rfl⟩
    · exact absurd (accepted_of_ok made) refused
    · exact ⟨_, failed⟩

end Planner

section Runs

/-- The names of the entity types fit their field, and no two are the same. -/
structure TypesApart (raw : Entities) : Prop where
  fits : ∀ id e, raw id = some e → NameFits e.1
  apart : ∀ id id' e e', raw id = some e → raw id' = some e' → e.1.entityKind = .entityType →
    e'.1.entityKind = .entityType → e.1.name = e'.1.name → id = id'

theorem TypesApart.distinct (types : TypesApart raw) : Distinct (shown raw) := by
  have whole {name : String} {id : Tuid} (isType : IsType (shown raw) name id) :
      ∃ e, raw id = some e ∧ e.1.entityKind = .entityType ∧ e.1.name = name := by
    obtain ⟨e, known, kind, named⟩ := isType
    obtain ⟨e', here, rfl⟩ := Option.map_eq_some_iff.mp known
    have fits : (utf8 e'.1.name).length ≤ nameMax := types.fits id e' here kind
    exact ⟨e', here, kind, (cut_of_fits fits).symm.trans named⟩
  intro name id id' isType isType'
  obtain ⟨e, here, kind, rfl⟩ := whole isType
  obtain ⟨e', here', kind', same⟩ := whole isType'
  exact types.apart id id' e e' here here' kind kind' same.symm

theorem TypesApart.none : TypesApart fun _ => Option.none where
  fits := fun _ _ here => by cases here
  apart := fun _ _ _ _ here => by cases here

theorem TypesApart.one {e : Entity} (fits : NameFits e.1) (id : Tuid) :
    TypesApart (Function.update (fun _ => Option.none) id (some e)) := by
  have only {id' : Tuid} {e' : Entity}
      (here : Function.update (fun _ => Option.none) id (some e) id' = some e') : id' = id ∧ e' = e := by
    by_cases same : id' = id
    · subst same
      rw [Function.update_self] at here
      exact ⟨rfl, (Option.some.inj here).symm⟩
    · rw [Function.update_of_ne same] at here
      cases here
  constructor
  · intro id' e' here
    obtain ⟨-, rfl⟩ := only here
    exact fits
  · intro id' id'' e' e'' here here' _ _ _
    rw [(only here).1, (only here').1]

theorem named_of_types (types : ∀ n, TypesApart (contents (calls.take n) fun _ => none)) : Named calls := by
  intro header body mem fits
  obtain ⟨before, after, rfl⟩ := List.append_of_mem mem
  have here := types (before.length + 1)
  have first : (before ++ Call.insert header body :: after).take (before.length + 1) =
      before ++ [Call.insert header body] := by
    rw [List.take_append, List.take_of_length_le (Nat.le_succ _), Nat.add_sub_cancel_left]
    rfl
  rw [first, contents, List.foldl_append, List.foldl_cons, List.foldl_nil, Call.onMap, if_pos fits] at here
  exact here.fits header.id (header, body) (Function.update_self ..)

/-- After the run the planner answers from what get gives, unless the page ids, the commit numbers or the
ordinals ran out. -/
def PlannerAnswers (os : PageSize) (fuel : Nat) (calls : List Call) (s : Store) (q : Query) : Prop :=
  match runCalls os fuel calls s with
  | (.ok _, s') => ∃ map, (∀ id, s'.get fuel id = .ok (map id)) ∧ Answers fuel s' map q
  | (.error e, s') => e = .panicked ∧ Exhausted s'

theorem planner_answers (small : os.size ≤ 16384) (created : Store.create os = .ok s)
    (enough : calls.length ≤ fuel) (few : Within os fuel 1000 calls s)
    (types : ∀ n, TypesApart (contents (calls.take n) fun _ => none)) (q : Query) :
    PlannerAnswers os fuel calls s q := by
  have start := create_settled created
  have enough' : 0 + calls.length ≤ fuel := (Nat.zero_add _).trans_le enough
  have level := leveled_of_within small start.synced.sound enough' few
  have ran := runCalls_settled start enough' level (named_of_types types)
  have last := types calls.length
  rw [List.take_length] at last
  unfold PlannerAnswers
  cases made : runCalls os fuel calls s with
  | mk result s' =>
    rw [made] at ran
    cases result with
    | error e => exact ran
    | ok given =>
      obtain ⟨-, slots, ords, ids, depth, shallow, settled⟩ := ran
      exact ⟨_, settled.synced.sound.get shallow, settled.synced.answers shallow last.distinct q⟩

set_option maxRecDepth 4000 in
theorem planner_answers_widget :
    ∃ s, Store.create fourKiB = .ok s ∧ PlannerAnswers fourKiB 2
      [.insert (.new (.fromBytes []) .nil "widget" .entityType .nil) [], .reopen] s
      { select := .all, from_ := "entities", filter := some (.in_ "type" [.ident "widget", .str "gadget"])
        orderBy := [], limit := some 10 } := by
  have small : fourKiB.size ≤ 16384 := show 4096 ≤ 16384 by omega
  obtain ⟨s, created, start, none, -⟩ := create_sound fourKiB
  have start : Sound fourKiB s (fun _ => Option.none) (fun _ => Option.none) (fun _ => Option.none)
      (shown fun _ => Option.none) 0 := start
  have few : Within fourKiB 2 1000
      [.insert (.new (.fromBytes []) .nil "widget" .entityType .nil) [], .reopen] s :=
    within_of_short small start (by simp) (by simp [none])
  have one : TypesApart (contents [.insert (.new (.fromBytes []) .nil "widget" .entityType .nil) []]
      fun _ => Option.none) := .one (fun _ => by decide) Tuid.nil
  have types (n : Nat) : TypesApart (contents (List.take n
      [.insert (.new (.fromBytes []) .nil "widget" .entityType .nil) [], .reopen]) fun _ => Option.none) := by
    match n with
    | 0 => exact .none
    | 1 => exact one
    | n + 2 =>
      rw [List.take_of_length_le (by simp)]
      exact one
  exact ⟨s, created, planner_answers small created (by simp) few types _⟩

end Runs

end Gems.Engine
