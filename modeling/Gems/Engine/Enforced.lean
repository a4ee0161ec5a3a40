import Gems.Abac.Enforce
import Gems.Engine.Filters
import Gems.Engine.Short
import Mathlib.Data.Set.Card

set_option autoImplicit false

namespace Gems.Engine

open Lib Prog Catalog Index Storage Abac

namespace Store

def loadPolicies (fuel : Nat) (s : Store) : Except Fault (List Policy) := do
  let ids ← s.queryByKind fuel .policy
  ids.mapM fun id => do
    match ← s.get fuel id with
    | none => throw (corrupt "policy id from secondary index missing from storage")
    | some (_, body) => Policy.decode body

def getEnforced (fuel : Nat) (s : Store) (id : Tuid) (subject : SubjectContext) : Except Fault (Option Entity) := do
  match ← s.get fuel id with
  | none => pure none
  | some pair =>
    let policies ← s.loadPolicies fuel
    pure (enforce policies subject [pair]).head?

def queryEnforced (fuel : Nat) (s : Store) (query : Query) (subject : SubjectContext) : Except Fault (List Entity) := do
  let ids ← s.query fuel query
  let policies ← s.loadPolicies fuel
  let entities ← ids.mapM fun id => s.get fuel id
  pure (enforce policies subject (entities.filterMap fun entity => entity))

end Store

variable {os os' : PageSize} {s t : Store} {slots slots' : Slots} {ords ords' : Ordinals} {ids ids' : Reverse}
  {map map' : Entities} {depth depth' fuel : Nat} {id : Tuid} {subject : SubjectContext} {policies : List Policy}
  {q : Query} {e : Entity}

section Views

def view (policies : List Policy) (subject : SubjectContext) (map : Entities) (id : Tuid) : Option Entity :=
  (map id).bind (enforceOne policies subject)

theorem enforceOne_none : enforceOne policies subject e = none ↔
    evaluate policies subject e.1.entityKind e.1.schemaRef = .deny := by
  obtain ⟨header, body⟩ := e
  simp only [enforceOne]
  split
  next deny => simp [deny]
  next redacted permit =>
    rw [permit]
    split
    next => simp
    next => split <;> simp

theorem view_owner (sound : Sound os s slots ords ids map depth) {e' : Entity}
    (shown : view policies subject map id = some e') : e'.1.id = id := by
  obtain ⟨e, known, visible⟩ := Option.bind_eq_some_iff.mp shown
  obtain ⟨-, -, same, -⟩ := enforceOne_some visible
  rw [same]
  exact sound.owner known

theorem getEnforced_eq (sound : Sound os s slots ords ids map depth) (enough : depth ≤ fuel)
    (loaded : s.loadPolicies fuel = .ok policies) (id : Tuid) :
    s.getEnforced fuel id subject = .ok (view policies subject map id) := by
  rw [Store.getEnforced, sound.get enough, loaded, view]
  cases known : map id with
  | none => rfl
  | some e =>
    cases shown : enforceOne policies subject e <;> simp [bind, Except.bind, pure, Except.pure, enforce, shown]

theorem queryEnforced_eq (sound : Sound os s slots ords ids map depth) (enough : depth ≤ fuel)
    (loaded : s.loadPolicies fuel = .ok policies) {list : List Tuid} (answer : s.query fuel q = .ok list) :
    s.queryEnforced fuel q subject = .ok (list.filterMap (view policies subject map)) := by
  have got : (list.mapM fun id => s.get fuel id) = .ok (list.map map) := by
    refine (mapM_known (g := fun id => some (map id)) fun id _ => ⟨_, rfl, sound.get enough id⟩).trans ?_
    rw [List.filterMap_eq_map']
  rw [Store.queryEnforced, answer, loaded]
  simp only [bind, Except.bind, got, enforce, pure, Except.pure, List.filterMap_filterMap, List.filterMap_map]
  rfl

theorem getEnforced_some {e' : Entity} (given : s.getEnforced fuel id subject = .ok (some e')) :
    ∃ e policies, s.get fuel id = .ok (some e) ∧ s.loadPolicies fuel = .ok policies ∧
      enforceOne policies subject e = some e' := by
  rw [Store.getEnforced] at given
  cases got : s.get fuel id with
  | error e =>
    rw [got] at given
    cases given
  | ok found =>
    cases found with
    | none =>
      rw [got] at given
      cases given
    | some e =>
      cases loaded : s.loadPolicies fuel with
      | error e' =>
        rw [got, loaded] at given
        cases given
      | ok policies =>
        rw [got, loaded] at given
        refine ⟨e, policies, rfl, rfl, ?_⟩
        cases shown : enforceOne policies subject e with
        | none => simp [bind, Except.bind, pure, Except.pure, enforce, shown] at given
        | some out => simpa [bind, Except.bind, pure, Except.pure, enforce, shown] using given

theorem queryEnforced_mem {entities : List Entity} (given : s.queryEnforced fuel q subject = .ok entities) {e' : Entity}
    (mem : e' ∈ entities) : ∃ id e policies, s.get fuel id = .ok (some e) ∧ s.loadPolicies fuel = .ok policies ∧
      enforceOne policies subject e = some e' := by
  rw [Store.queryEnforced] at given
  cases answer : s.query fuel q with
  | error e =>
    rw [answer] at given
    cases given
  | ok ids =>
    cases loaded : s.loadPolicies fuel with
    | error e =>
      rw [answer, loaded] at given
      cases given
    | ok policies =>
      cases read : ids.mapM fun id => s.get fuel id with
      | error e =>
        simp only [answer, loaded, bind, Except.bind, read] at given
        cases given
      | ok found =>
        simp only [answer, loaded, bind, Except.bind, read] at given
        obtain rfl := Except.ok.inj given
        obtain ⟨e, inside, shown⟩ := List.mem_filterMap.mp mem
        obtain ⟨_, inside', rfl⟩ := List.mem_filterMap.mp inside
        obtain ⟨id, -, got⟩ := mem_of_mapM_ok read _ inside'
        exact ⟨id, e, policies, got, rfl, shown⟩

end Views

section Policies

theorem loadPolicies_perm (linked : Linked os s slots ords ids map depth) (enough : depth ≤ fuel)
    (tracks : Tracks s.byKind kindField ords map) (linked' : Linked os' t slots' ords' ids' map' depth')
    (enough' : depth' ≤ fuel) (tracks' : Tracks t.byKind kindField ords' map')
    (same : ∀ id e, e.1.entityKind = .policy → (map id = some e ↔ map' id = some e))
    (loaded : s.loadPolicies fuel = .ok policies) :
    ∃ policies', t.loadPolicies fuel = .ok policies' ∧ policies.Perm policies' := by
  obtain ⟨list, listed, names⟩ := linked.queryByKind enough tracks .policy
  obtain ⟨list', listed', names'⟩ := linked'.queryByKind enough' tracks' .policy
  have perm : list.Perm list' := by
    refine (List.perm_ext_iff_of_nodup names.1 names'.1).mpr fun id => ?_
    rw [names.2, names'.2]
    exact exists_congr fun e => and_congr_left fun kind => same id e kind
  have decoded : ∀ id ∈ list, ∃ e, map id = some e ∧ map' id = some e ∧ ∃ p, Policy.decode e.2 = .ok p := by
    intro id mem
    obtain ⟨e, known, kind⟩ := (names.2 id).mp mem
    refine ⟨e, known, (same id e kind).mp known, ?_⟩
    rw [Store.loadPolicies, listed] at loaded
    obtain ⟨p, read⟩ := each_of_mapM loaded id mem
    rw [linked.sound.get enough, known] at read
    exact ⟨p, read⟩
  let policyOf (id : Tuid) : Option Policy := (map id).bind fun e => (Policy.decode e.2).toOption
  have policy {e : Entity} {p : Policy} {id : Tuid} (known : map id = some e) (read : Policy.decode e.2 = .ok p) :
      policyOf id = some p := by
    simp only [policyOf, known, Option.bind_some, read]
    rfl
  have here : s.loadPolicies fuel = .ok (list.filterMap policyOf) := by
    rw [Store.loadPolicies, listed]
    refine mapM_known fun id mem => ?_
    obtain ⟨e, known, -, p, read⟩ := decoded id mem
    refine ⟨p, policy known read, ?_⟩
    rw [linked.sound.get enough, known]
    exact read
  have there : t.loadPolicies fuel = .ok (list'.filterMap policyOf) := by
    rw [Store.loadPolicies, listed']
    refine mapM_known fun id mem => ?_
    obtain ⟨e, known, known', p, read⟩ := decoded id (perm.mem_iff.mpr mem)
    refine ⟨p, policy known read, ?_⟩
    rw [linked'.sound.get enough', known']
    exact read
  obtain rfl : list.filterMap policyOf = policies := Except.ok.inj (here.symm.trans loaded)
  exact ⟨_, there, perm.filterMap _⟩

end Policies

section Comparison

-- A data entity, if any, that the subject may not see.
def Store.Hides (fuel : Nat) (s : Store) (policies : List Policy) (subject : SubjectContext) (id : Tuid) : Prop :=
  ∀ e, s.get fuel id = .ok (some e) → e.1.entityKind = .data ∧
    evaluate policies subject e.1.entityKind e.1.schemaRef = .deny

/-- The stores differ in nothing but data entities that the policies hide from the subject. -/
structure Alike (fuel : Nat) (policies : List Policy) (subject : SubjectContext) (s t : Store) : Prop where
  loaded : s.loadPolicies fuel = .ok policies
  entities : ∀ id, s.get fuel id = t.get fuel id ∨
    s.Hides fuel policies subject id ∧ t.Hides fuel policies subject id

/-- The subject gets the same from both stores. -/
structure Indistinct (fuel : Nat) (subject : SubjectContext) (q : Query) (s t : Store) : Prop where
  listed : ∃ entities, s.queryEnforced fuel q subject = .ok entities ∧ t.queryEnforced fuel q subject = .ok entities
  got : ∀ id, ∃ answer, s.getEnforced fuel id subject = .ok answer ∧ t.getEnforced fuel id subject = .ok answer

/-- The entity is selected, and the selected ones with a smaller id leave room for it under the limit. -/
def Store.Reaches (fuel : Nat) (s : Store) (q : Query) (id : Tuid) : Prop :=
  s.Selected fuel q.filter id ∧ ∀ limit, q.limit = some limit →
    {other | s.Selected fuel q.filter other ∧ other < id}.ncard < limit.toNat

/-- Both stores know the listed names, and the limit cuts off the same of the entities that the subject may see. -/
structure SameReach (fuel : Nat) (policies : List Policy) (subject : SubjectContext) (q : Query) (s t : Store) :
    Prop where
  answering : s.Answering fuel q.filter ∧ t.Answering fuel q.filter
  reached : ∀ id e, s.get fuel id = .ok (some e) →
    evaluate policies subject e.1.entityKind e.1.schemaRef ≠ .deny → (s.Reaches fuel q id ↔ t.Reaches fuel q id)

theorem mem_truncate {all : List Tuid} (sorted : all.Pairwise (· < ·))
    (mem : ∀ id, id ∈ all ↔ s.Selected fuel q.filter id) (id : Tuid) :
    id ∈ Store.truncate q.limit all ↔ s.Reaches fuel q id := by
  have count : {other | s.Selected fuel q.filter other ∧ other < id}.ncard = all.countP fun other => other < id := by
    have below : {other | s.Selected fuel q.filter other ∧ other < id} =
      (all.filter fun other => other < id).toFinset := by
      ext other
      simp [mem]
    rw [below, Set.ncard_coe_finset, List.toFinset_card_of_nodup (sorted.nodup.filter _), List.countP_eq_length_filter]
  rw [Store.Reaches, count, ← mem]
  cases q.limit with
  | none => simp [Store.truncate]
  | some limit => simp [Store.truncate, mem_take_ascending sorted]

theorem truncate_sorted {all : List Tuid} (sorted : all.Pairwise (· < ·)) (limit : Option UInt64) :
    (Store.truncate limit all).Pairwise (· < ·) := by
  cases limit with
  | none => exact sorted
  | some limit => exact sorted.sublist (List.take_sublist _ _)

theorem view_visible (sound : Sound os s slots ords ids map depth) (enough : depth ≤ fuel) (id : Tuid) :
    view policies subject map id ≠ none ↔ ∃ e, s.get fuel id = .ok (some e) ∧
      evaluate policies subject e.1.entityKind e.1.schemaRef ≠ .deny := by
  simp only [sound.get enough, Except.ok.injEq, view]
  cases map id with
  | none => simp
  | some e => simp [enforceOne_none]

theorem answering_of_enforced {entities : List Entity} (h : s.queryEnforced fuel q subject = .ok entities) :
    s.Answering fuel q.filter := by
  cases answer : s.query fuel q with
  | error e =>
    rw [Store.queryEnforced, answer] at h
    cases h
  | ok list => exact answering_of_query answer

theorem Alike.same_view (alike : Alike fuel policies subject s t) {policies' : List Policy}
    (perm : policies.Perm policies') (sound : Sound os s slots ords ids map depth) (enough : depth ≤ fuel)
    (sound' : Sound os' t slots' ords' ids' map' depth') (enough' : depth' ≤ fuel) :
    view policies' subject map' = view policies subject map := by
  funext id
  rw [view, view, enforceOne_perm perm]
  have hidden {s : Store} {slots : Slots} {ords : Ordinals} {ids : Reverse} {map : Entities} {depth : Nat}
      {os : PageSize} (sound : Sound os s slots ords ids map depth) (enough : depth ≤ fuel)
      (hides : s.Hides fuel policies subject id) : (map id).bind (enforceOne policies' subject) = none := by
    cases known : map id with
    | none => rfl
    | some e =>
      rw [Option.bind_some, ← enforceOne_perm perm, enforceOne_none]
      exact (hides e (by rw [sound.get enough, known])).2
  rcases alike.entities id with same | ⟨here, there⟩
  · rw [sound.get enough, sound'.get enough', Except.ok.injEq] at same
    rw [same]
  · rw [hidden sound enough here, hidden sound' enough' there]

theorem Alike.same_policies (alike : Alike fuel policies subject s t) (sound : Sound os s slots ords ids map depth)
    (enough : depth ≤ fuel) (sound' : Sound os' t slots' ords' ids' map' depth') (enough' : depth' ≤ fuel) (id : Tuid)
    (e : Entity) (kind : e.1.entityKind = .policy) : map id = some e ↔ map' id = some e := by
  rcases alike.entities id with same | ⟨here, there⟩
  · rw [sound.get enough, sound'.get enough', Except.ok.injEq] at same
    rw [same]
  · have data {s : Store} {map : Entities} (got : s.get fuel id = .ok (map id))
        (hides : s.Hides fuel policies subject id) : map id ≠ some e := by
      intro known
      have isData := (hides e (by rw [got, known])).1
      rw [kind] at isData
      cases isData
    exact iff_of_false (data (sound.get enough id) here) (data (sound'.get enough' id) there)

theorem Alike.indistinct_iff (alike : Alike fuel policies subject s t) (accepted : Accepted q)
    (rested : Rested os s slots ords ids map depth) (enough : depth ≤ fuel)
    (rested' : Rested os' t slots' ords' ids' map' depth') (enough' : depth' ≤ fuel) :
    Indistinct fuel subject q s t ↔ SameReach fuel policies subject q s t := by
  obtain ⟨linked, filed, -, -, -⟩ := rested
  obtain ⟨linked', filed', -, -, -⟩ := rested'
  obtain ⟨policies', loaded', perm⟩ := loadPolicies_perm linked enough filed.byKind linked' enough' filed'.byKind
    (alike.same_policies linked.sound enough linked'.sound enough') alike.loaded
  have seen := alike.same_view perm linked.sound enough linked'.sound enough'
  have got (id : Tuid) :
      ∃ answer, s.getEnforced fuel id subject = .ok answer ∧ t.getEnforced fuel id subject = .ok answer := by
    refine ⟨_, getEnforced_eq linked.sound enough alike.loaded id, ?_⟩
    rw [getEnforced_eq linked'.sound enough' loaded' id, seen]
  have lists (answering : s.Answering fuel q.filter) (answering' : t.Answering fuel q.filter) :
      (∃ entities, s.queryEnforced fuel q subject = .ok entities ∧ t.queryEnforced fuel q subject = .ok entities) ↔
        ∀ id, view policies subject map id ≠ none → (s.Reaches fuel q id ↔ t.Reaches fuel q id) := by
    obtain ⟨all, sorted, mem, answer⟩ := linked.query filed.bySchemaRef enough accepted answering
    obtain ⟨all', sorted', mem', answer'⟩ := linked'.query filed'.bySchemaRef enough' accepted answering'
    have owner (id : Tuid) (e : Entity) (shown : view policies subject map id = some e) : e.1.id = id :=
      view_owner linked.sound shown
    have same := filterMap_ascending owner (truncate_sorted sorted q.limit) (truncate_sorted sorted' q.limit)
    simp only [mem_truncate sorted mem, mem_truncate sorted' mem'] at same
    rw [queryEnforced_eq linked.sound enough alike.loaded answer,
      queryEnforced_eq linked'.sound enough' loaded' answer', seen, ← same]
    simp [eq_comm]
  have visible := @view_visible _ _ _ _ _ _ _ _ subject policies linked.sound enough
  constructor
  · intro indistinct
    obtain ⟨entities, here, there⟩ := indistinct.listed
    have answering := answering_of_enforced here
    have answering' := answering_of_enforced there
    refine ⟨⟨answering, answering'⟩, fun id e known permitted => ?_⟩
    exact (lists answering answering').mp indistinct.listed id ((visible id).mpr ⟨e, known, permitted⟩)
  · intro reached
    refine ⟨(lists reached.answering.1 reached.answering.2).mpr fun id shown => ?_, got⟩
    obtain ⟨e, known, permitted⟩ := (visible id).mp shown
    exact reached.reached id e known permitted

end Comparison

section Runs

/-- A store that a run of inserts, deletes and reopens has led to, the length of the data file telling its
extents at every call that counts them. -/
def Reachable (os : PageSize) (fuel : Nat) (s : Store) : Prop :=
  ∃ start calls given, Store.create os = .ok start ∧ calls.length ≤ fuel ∧ LeveledRun os fuel calls start ∧
    runCalls os fuel calls start = (.ok given, s)

theorem Reachable.rested (reach : Reachable os fuel s) :
    ∃ slots ords ids map depth, depth ≤ fuel ∧ Rested os s slots ords ids map depth := by
  obtain ⟨start, calls, given, created, enough, level, made⟩ := reach
  have ran := runCalls_rested (create_settled created).rested ((Nat.zero_add _).trans_le enough) level
  rw [made] at ran
  obtain ⟨-, slots, ords, ids, depth, shallow, rested⟩ := ran
  exact ⟨slots, ords, ids, _, depth, shallow, rested⟩

/-- Hidden entities show up in what a subject is given exactly when the limit counts them. -/
theorem enforced_alike_iff (reach : Reachable os fuel s) (reach' : Reachable os' fuel t)
    (alike : Alike fuel policies subject s t) (accepted : Accepted q) :
    Indistinct fuel subject q s t ↔ SameReach fuel policies subject q s t := by
  obtain ⟨slots, ords, ids, map, depth, enough, rested⟩ := reach.rested
  obtain ⟨slots', ords', ids', map', depth', enough', rested'⟩ := reach'.rested
  exact alike.indistinct_iff accepted rested enough rested' enough'

def smallId (n : UInt8) : Tuid := .fromBytes (n :: List.replicate 23 0)

def hiddenHeader : EntityHeader := .new (.fromBytes []) (smallId 1) "hidden" .data .nil

def visibleHeader : EntityHeader := .new (.fromBytes []) (smallId 2) "visible" .data (smallId 4)

def policyHeader : EntityHeader := .new (.fromBytes []) (smallId 3) "policy" .policy .nil

-- Everyone may see the entities of one type.
def openPolicy : Policy where
  target := { entityKind := none, schemaRef := smallId 4 }
  subject := .any
  effect := .permit
  redactAttributes := []

def anyone : SubjectContext := { subjectId := .nil, roles := [] }

def firstEntity : Query := { select := .all, from_ := "entities", filter := none, orderBy := [], limit := some 1 }

def openCalls : List Call := [.insert policyHeader openPolicy.encode, .insert visibleHeader []]

def hiddenCalls : List Call := openCalls ++ [.insert hiddenHeader []]

theorem hiddenCalls_run (created : Store.create fourKiB = .ok s) :
    ∃ given t, runCalls fourKiB 3 hiddenCalls s = (.ok given, t) := by
  have small : fourKiB.size ≤ 16384 := show 4096 ≤ 16384 by omega
  exact runCalls_returns small created (by simp [hiddenCalls, openCalls]) (by decide) (by omega)

theorem runCalls_front {front rest : List Call} {given : List Reply}
    (made : runCalls os fuel (front ++ rest) s = (.ok given, t)) :
    ∃ given' s', runCalls os fuel front s = (.ok given', s') := by
  induction front generalizing s given with
  | nil => exact ⟨[], s, rfl⟩
  | cons call front ih =>
    rw [List.cons_append, runCalls] at made
    rw [runCalls]
    cases first : call.exec os fuel s with
    | mk result s' =>
      rw [first] at made
      cases result with
      | error e => cases made
      | ok reply =>
        cases later : runCalls os fuel (front ++ rest) s' with
        | mk result' s'' =>
          simp only [later] at made
          cases result' with
          | error e => cases made
          | ok more =>
            cases made
            obtain ⟨given', s'', made'⟩ := ih later
            exact ⟨reply :: given', s'', by simp only [made']⟩

theorem run_rested {calls : List Call} {given : List Reply} (created : Store.create fourKiB = .ok s)
    (short : calls.length ≤ 3) (made : runCalls fourKiB 3 calls s = (.ok given, t)) :
    Reachable fourKiB 3 t ∧ ∃ slots ords ids depth, depth ≤ 3 ∧
      Rested fourKiB t slots ords ids (shown (contents calls fun _ => none)) depth := by
  have small : fourKiB.size ≤ 16384 := show 4096 ≤ 16384 by omega
  obtain ⟨empty, created', start, none, -⟩ := create_sound fourKiB
  obtain rfl : s = empty := Except.ok.inj (created.symm.trans created')
  have start : Sound fourKiB s (fun _ => Option.none) (fun _ => Option.none) (fun _ => Option.none)
      (shown fun _ => Option.none) 0 := start
  have enough : 0 + calls.length ≤ 3 := by omega
  have level := leveled_of_within small start enough (within_of_short small start enough (by omega))
  have ran := runCalls_rested (create_settled created).rested enough level
  rw [made] at ran
  exact ⟨⟨s, calls, given, created, short, level, made⟩, ran.2⟩

theorem shown_openCalls : shown (contents openCalls fun _ => none) =
    Function.update (Function.update (fun _ => none) policyHeader.id (some (stored policyHeader openPolicy.encode)))
      visibleHeader.id (some (stored visibleHeader [])) := by
  have fits : Fits openPolicy.encode := by decide
  rw [contents, openCalls, List.foldl_cons, List.foldl_cons, List.foldl_nil, Call.onMap, Call.onMap, if_pos fits,
    if_pos (by decide), shown_update, shown_update]
  rfl

theorem openCalls_below (below : id < visibleHeader.id) : shown (contents openCalls fun _ => none) id = none := by
  rw [shown_openCalls, Function.update_of_ne below.ne, Function.update_of_ne]
  rintro rfl
  exact absurd below (by decide)

theorem shown_hiddenCalls : shown (contents hiddenCalls fun _ => none) =
    Function.update (shown (contents openCalls fun _ => none)) hiddenHeader.id (some (stored hiddenHeader [])) := by
  rw [contents, hiddenCalls, List.foldl_append]
  exact shown_update _ _ _

theorem openPolicy_loaded (rested : Rested os s slots ords ids (shown (contents openCalls fun _ => none)) depth)
    (enough : depth ≤ fuel) : s.loadPolicies fuel = .ok [openPolicy] := by
  obtain ⟨linked, filed, -, -, -⟩ := rested
  obtain ⟨list, listed, nodup, names⟩ := linked.queryByKind enough filed.byKind .policy
  have only (id : Tuid) : id ∈ list ↔ id ∈ [policyHeader.id] := by
    rw [names, List.mem_singleton, shown_openCalls]
    dsimp only
    by_cases visible : id = visibleHeader.id
    · subst visible
      rw [Function.update_self]
      refine iff_of_false ?_ (by decide)
      rintro ⟨e, same, kind⟩
      obtain rfl := Option.some.inj same
      cases kind
    · rw [Function.update_of_ne visible]
      by_cases policy : id = policyHeader.id
      · subst policy
        rw [Function.update_self]
        exact iff_of_true ⟨_, rfl, rfl⟩ rfl
      · rw [Function.update_of_ne policy]
        exact iff_of_false (by simp) policy
  obtain rfl : list = [policyHeader.id] :=
    List.perm_singleton.mp ((List.perm_ext_iff_of_nodup nodup (List.nodup_singleton _)).mpr only)
  have got : s.get fuel policyHeader.id = .ok (some (stored policyHeader openPolicy.encode)) := by
    rw [linked.sound.get enough, shown_openCalls, Function.update_of_ne (by decide), Function.update_self]
  rw [Store.loadPolicies, listed]
  simp only [bind, Except.bind, List.mapM_cons, List.mapM_nil, got]
  rfl

theorem hidden_apart : ∃ s t slots slots' ords ords' ids ids' depth depth', Reachable fourKiB 3 s ∧
    Reachable fourKiB 3 t ∧ Alike 3 [openPolicy] anyone s t ∧ depth ≤ 3 ∧ depth' ≤ 3 ∧
    Rested fourKiB s slots ords ids (shown (contents openCalls fun _ => none)) depth ∧
    Rested fourKiB t slots' ords' ids' (shown (contents hiddenCalls fun _ => none)) depth' := by
  obtain ⟨start, created, -⟩ := create_sound fourKiB
  obtain ⟨given', t, made'⟩ := hiddenCalls_run created
  obtain ⟨given, s, made⟩ := runCalls_front made'
  obtain ⟨reach, slots, ords, ids, depth, shallow, rested⟩ := run_rested created (by decide) made
  obtain ⟨reach', slots', ords', ids', depth', shallow', rested'⟩ := run_rested created (by decide) made'
  have got := rested.linked.sound.get shallow
  have got' := rested'.linked.sound.get shallow'
  refine ⟨s, t, slots, slots', ords, ords', ids, ids', depth, depth', reach, reach',
    ⟨openPolicy_loaded rested shallow, fun id => ?_⟩, shallow, shallow', rested, rested'⟩
  by_cases other : id = hiddenHeader.id
  · subst other
    refine .inr ⟨fun e here => ?_, fun e there => ?_⟩
    · rw [got, shown_openCalls, Function.update_of_ne (by decide), Function.update_of_ne (by decide)] at here
      cases here
    · rw [got', shown_hiddenCalls, Function.update_self, Except.ok.injEq, Option.some.injEq] at there
      subst there
      exact ⟨rfl, by decide⟩
  · exact .inl (by rw [got, got', shown_hiddenCalls, Function.update_of_ne other])

theorem enforced_alike_iff_open : ∃ s t, Reachable fourKiB 3 s ∧ Reachable fourKiB 3 t ∧
    Alike 3 [openPolicy] anyone s t ∧
    (Indistinct 3 anyone firstEntity s t ↔ SameReach 3 [openPolicy] anyone firstEntity s t) := by
  obtain ⟨s, t, -, -, -, -, -, -, -, -, reach, reach', alike, -⟩ := hidden_apart
  exact ⟨s, t, reach, reach', alike, enforced_alike_iff reach reach' alike ⟨by decide, rfl, trivial⟩⟩

/-- The hidden entity takes the visible one's place under the limit. -/
theorem hidden_detected : ∃ s t, Reachable fourKiB 3 s ∧ Reachable fourKiB 3 t ∧ Alike 3 [openPolicy] anyone s t ∧
    Accepted firstEntity ∧ ¬ Indistinct 3 anyone firstEntity s t := by
  obtain ⟨s, t, _, _, _, _, _, _, _, _, reach, reach', alike, shallow, shallow', rested, rested'⟩ := hidden_apart
  have accepted : Accepted firstEntity := ⟨by decide, rfl, trivial⟩
  have got := rested.linked.sound.get shallow
  have got' := rested'.linked.sound.get shallow'
  refine ⟨s, t, reach, reach', alike, accepted, fun indistinct => ?_⟩
  have reached := ((alike.indistinct_iff accepted rested shallow rested' shallow').mp indistinct).reached
    visibleHeader.id (stored visibleHeader []) (by rw [got, shown_openCalls, Function.update_self]) (by decide)
  have first : s.Reaches 3 firstEntity visibleHeader.id := by
    refine ⟨⟨_, by rw [got, shown_openCalls, Function.update_self], .inl rfl⟩, fun limit one => ?_⟩
    obtain rfl : 1 = limit := Option.some.inj one
    have empty : {other | s.Selected 3 firstEntity.filter other ∧ other < visibleHeader.id} = ∅ := by
      refine Set.eq_empty_of_forall_notMem fun other here => ?_
      obtain ⟨⟨e, present, -⟩, below⟩ := here
      rw [got, openCalls_below below] at present
      cases present
    rw [empty, Set.ncard_empty]
    decide
  have only : {other | t.Selected 3 firstEntity.filter other ∧ other < visibleHeader.id} = {hiddenHeader.id} := by
    refine Set.eq_singleton_iff_unique_mem.mpr ⟨⟨⟨stored hiddenHeader [], ?_, .inl rfl⟩, by decide⟩, ?_⟩
    · rw [got', shown_hiddenCalls, Function.update_self]
    · rintro other ⟨⟨e, present, -⟩, below⟩
      by_contra apart
      rw [got', shown_hiddenCalls, Function.update_of_ne apart, openCalls_below below] at present
      cases present
  have room := (reached.mp first).2 1 rfl
  rw [only, Set.ncard_singleton] at room
  exact absurd room (by decide)

end Runs

end Gems.Engine
