import Gems.Frontend.Reads

set_option autoImplicit false

namespace Gems.Frontend

open Lib Catalog Codec Storage Engine Abac

section Statement

inductive ReadRequest where
  | listTypes (req : Webui.Request)
  | query (req : Webui.Request)
  | getEntity (req : Webui.Request)
  | listSubjects (req : Webui.Request)
  | listRoles (req : Webui.Request)
  | listPolicies (req : Webui.Request)
  | toolQuery (args : Json.Value)
  | toolGetEntity (args : Json.Value)
  | toolListEntityTypes (args : Json.Value)

def outcome {E : Type} (answer : Answer E Json.Value) : Option Json.Value :=
  match answer.run with
  | .ok (.ok value) => some value
  | _ => none

namespace ReadRequest

def response (host : Host) : ReadRequest → Option Json.Value
  | listTypes req => outcome (Webui.listTypes host req)
  | query req => outcome (Webui.query host req)
  | getEntity req => outcome (Webui.getEntity host req)
  | listSubjects req => outcome (Webui.listSubjects host req)
  | listRoles req => outcome (Webui.listRoles host req)
  | listPolicies req => outcome (Webui.listPolicies host req)
  | toolQuery args => outcome (Mcp.query host args)
  | toolGetEntity args => outcome (Mcp.getEntity host args)
  | toolListEntityTypes args => outcome (Mcp.listEntityTypes host args)

def token : ReadRequest → Option String
  | listTypes req => req.bearerToken
  | query req => req.bearerToken
  | getEntity req => req.bearerToken
  | listSubjects req => req.bearerToken
  | listRoles req => req.bearerToken
  | listPolicies req => req.bearerToken
  | toolQuery args => Mcp.argument args "auth_token"
  | toolGetEntity args => Mcp.argument args "auth_token"
  | toolListEntityTypes args => Mcp.argument args "auth_token"

def storeDir : ReadRequest → Option String
  | listTypes req => req.queryParam "store_dir"
  | query req => req.queryParam "store_dir"
  | getEntity req => req.queryParam "store_dir"
  | listSubjects req => req.queryParam "store_dir"
  | listRoles req => req.queryParam "store_dir"
  | listPolicies req => req.queryParam "store_dir"
  | toolQuery args => Mcp.argument args "store_dir"
  | toolGetEntity args => Mcp.argument args "store_dir"
  | toolListEntityTypes args => Mcp.argument args "store_dir"

-- The two routes that list the entity types.
def listsTypes : ReadRequest → Bool
  | listTypes _ => true
  | toolListEntityTypes _ => true
  | _ => false

/-- The request is that of the subject, on the store. -/
structure Reads (host : Host) (request : ReadRequest) (subject : SubjectContext) (store : Store) : Prop where
  verified : host.auth.authorize request.token host.now = pure (some subject)
  opened : ∃ dir, request.storeDir = some dir ∧ host.openStore dir = .ok store

end ReadRequest

-- The entities that an answer tells of, each an object.
def objectsOf : Json.Value → List Json.Value
  | .array items => items
  | value => [value]

def Permits (fuel : Nat) (store : Store) (subject : SubjectContext) (e : Entity) (redacted : List UInt32) : Prop :=
  ∃ policies, store.loadPolicies fuel = .ok policies ∧
    evaluate policies subject e.1.entityKind e.1.schemaRef = .permit redacted

structure Tells (fuel : Nat) (store : Store) (subject : SubjectContext) (object : Json.Value) (e : Entity)
    (redacted : List UInt32) : Prop where
  stored : store.get fuel e.1.id = .ok (some e)
  permitted : Permits fuel store subject e redacted
  id : object.get "id" = some (.string e.1.id.toHexString)
  name : object.get "name" = some (.string e.1.name)
  description : object.get "description" = some (.string e.1.description)
  fields : ∀ fields, object.get "fields" = some fields → ∃ policies out r,
    store.loadPolicies fuel = .ok policies ∧ enforceOne policies subject e = some (e.1, out) ∧
    GbvReader.new out = .ok r ∧ fields = .object (fieldsOf r)
  redacted : ∀ fields, object.get "fields" = some fields → ∀ key ∈ redacted, fields.get (fieldName key) = none

def AllTell (fuel : Nat) (store : Store) (subject : SubjectContext) (value : Json.Value) : Prop :=
  ∀ object ∈ objectsOf value, ∃ e redacted, Tells fuel store subject object e redacted

/-- An answer goes to a verified subject, and the policies of the store permit that subject all of it. -/
def Mediated (host : Host) (request : ReadRequest) : Prop :=
  ∀ value, request.response host = some value →
    ∃ subject store, request.Reads host subject store ∧ AllTell host.fuel store subject value

/-- Every directory holds a store that a run has led to, and its data file tells its extents. -/
def Host.Reached (host : Host) : Prop :=
  ∀ dir left, host.directories dir = some left → Engine.Reachable host.os host.fuel left ∧ Level left.data

end Statement

section Answers

namespace Answer

variable {E A B : Type} {failed : Message → E}

theorem bind_eq_pure {answer : Answer E A} {f : A → Answer E B} {b : B} (made : answer >>= f = pure b) :
    ∃ a, answer = pure a ∧ f a = pure b := by
  cases answer with
  | error fault => cases made
  | ok result =>
    cases result with
    | error e => cases made
    | ok a => exact ⟨a, rfl, made⟩

theorem pure_inj {a a' : A} (same : (pure a : Answer E A) = pure a') : a = a' :=
  Except.ok.inj (Except.ok.inj same)

theorem ofStore_eq_pure {result : Except Fault A} {a : A} : ofStore failed result = pure a ↔ result = .ok a := by
  cases result with
  | ok a' =>
    constructor
    next => exact fun same => congrArg Except.ok (pure_inj same)
    next => exact fun same => congrArg (fun a => (pure a : Answer E A)) (Except.ok.inj same)
  | error fault =>
    refine ⟨fun made => ?_, fun same => by cases same⟩
    cases fault <;> cases made

theorem ofToken_eq_pure {verdict : Verdict A} {a : A} : ofToken failed verdict = pure a ↔ verdict = pure a := by
  cases verdict with
  | error fault => exact ⟨fun made => (by cases made), fun made => by cases made⟩
  | ok result =>
    cases result with
    | error e => exact ⟨fun made => (by cases made), fun made => by cases made⟩
    | ok a' =>
      constructor
      next => exact fun same => congrArg (fun a => (pure a : Verdict A)) (pure_inj same)
      next => exact fun same => congrArg (fun a => (pure a : Answer E A)) (pure_inj same)

theorem required_eq_pure {e : E} {found : Option A} {a : A} : required e found = pure a ↔ found = some a := by
  cases found with
  | none => exact ⟨fun made => (by cases made), fun same => by cases same⟩
  | some a' =>
    constructor
    next => exact fun same => congrArg some (pure_inj same)
    next => exact fun same => congrArg (fun a => (pure a : Answer E A)) (Option.some.inj same)

theorem mapM_mem {f : A → Answer E B} {l : List A} {out : List B} (made : l.mapM f = pure out) :
    ∀ b ∈ out, ∃ a ∈ l, f a = pure b :=
  mem_of_mapM_pure (fun _ _ _ => bind_eq_pure) pure_inj made

end Answer

theorem outcome_eq_some {E : Type} {answer : Answer E Json.Value} {value : Json.Value} :
    outcome answer = some value ↔ answer = pure value := by
  cases answer with
  | error fault => exact ⟨fun none => (by cases none), fun made => by cases made⟩
  | ok result =>
    cases result with
    | error e => exact ⟨fun none => (by cases none), fun made => by cases made⟩
    | ok value' =>
      constructor
      next =>
        intro same
        have same : some value' = some value := same
        obtain rfl := Option.some.inj same
        rfl
      next => exact fun made => congrArg some (Answer.pure_inj made)

end Answers

section Objects

variable {fuel : Nat} {store : Store} {subject : SubjectContext} {e e' : Entity} {policies : List Policy}

theorem mem_setEntry {key : String} {value : Json.Value} {entries : List (String × Json.Value)}
    {entry : String × Json.Value} (mem : entry ∈ Json.Value.setEntry key value entries) :
    entry.1 = key ∨ ∃ old ∈ entries, old.1 = entry.1 := by
  rw [Json.Value.setEntry] at mem
  split at mem
  next i _ =>
    obtain ⟨j, inside, rfl⟩ := List.mem_iff_getElem.mp mem
    rw [List.length_modify] at inside
    refine .inr ⟨entries[j], List.getElem_mem inside, ?_⟩
    rw [List.getElem_modify]
    split <;> rfl
  next =>
    rcases List.mem_append.mp mem with old | last
    next => exact .inr ⟨entry, old, rfl⟩
    next =>
      obtain rfl := List.mem_singleton.mp last
      exact .inl rfl

theorem fieldName_injective {key key' : UInt32} (same : fieldName key = fieldName key') : key = key' := by
  have text : decimal key.toNat = decimal key'.toNat := String.ofList_injective same
  have number : Nat.ofDigitChars 10 (decimal key.toNat) 0 = Nat.ofDigitChars 10 (decimal key'.toNat) 0 := by
    rw [text]
  rw [decimal_value, decimal_value] at number
  exact UInt32.toNat_inj.mp number

theorem mem_fieldsOf {r : GbvReader} {entry : String × Json.Value} (mem : entry ∈ fieldsOf r) :
    ∃ key ∈ r.keyIds, entry.1 = fieldName key := by
  revert entry
  refine List.foldlRecOn (motive := fun fields : List (String × Json.Value) =>
    ∀ {entry}, entry ∈ fields → ∃ key ∈ r.keyIds, entry.1 = fieldName key) r.keyIds _
    (fun none => absurd none List.not_mem_nil) ?_
  intro fields known key inside entry mem
  split at mem
  next =>
    rcases mem_setEntry mem with here | ⟨old, mem', same⟩
    next => exact ⟨key, inside, here⟩
    next => exact same ▸ known mem'
  next => exact known mem

theorem fieldsOf_get {r : GbvReader} {key : UInt32} (missing : key ∉ r.keyIds) :
    (Json.Value.object (fieldsOf r)).get (fieldName key) = none := by
  rw [Json.Value.get, Option.map_eq_none_iff, List.find?_eq_none]
  intro entry mem same
  obtain ⟨key', inside, named⟩ := mem_fieldsOf mem
  have named' : fieldName key' = fieldName key := named.symm.trans (by simpa using same)
  exact missing (fieldName_injective named' ▸ inside)

theorem tells_permitted {redacted : List UInt32} (stored : store.get fuel e.1.id = .ok (some e))
    (permitted : Permits fuel store subject e redacted) :
    Tells fuel store subject (.object (entitySummary e.1)) e redacted where
  stored := stored
  permitted := permitted
  id := rfl
  name := rfl
  description := rfl
  fields := fun fields none => by cases none
  redacted := fun fields none => by cases none

theorem tells_summary (stored : store.get fuel e.1.id = .ok (some e)) (loaded : store.loadPolicies fuel = .ok policies)
    (shown : enforceOne policies subject e = some e') :
    ∃ redacted, Tells fuel store subject (.object (entitySummary e'.1)) e redacted := by
  obtain ⟨redacted, permitted, same, -⟩ := enforceOne_some shown
  rw [same]
  exact ⟨redacted, tells_permitted stored ⟨policies, loaded, permitted⟩⟩

theorem tells_object (stored : store.get fuel e.1.id = .ok (some e)) (loaded : store.loadPolicies fuel = .ok policies)
    (shown : enforceOne policies subject e = some e') :
    ∃ redacted, Tells fuel store subject (entityObject e'.1 e'.2) e redacted := by
  rw [entityObject]
  split
  next =>
    split
    next r opened =>
      obtain ⟨redacted, permitted, same, hidden⟩ := enforceOne_some shown
      refine ⟨redacted, stored, ⟨policies, loaded, permitted⟩, ?_, ?_, ?_, ?_, ?_⟩
      next => rw [same]; rfl
      next => rw [same]; rfl
      next => rw [same]; rfl
      next =>
        intro fields here
        obtain rfl := Option.some.inj here
        exact ⟨policies, e'.2, r, loaded, by rw [shown, ← same], opened, rfl⟩
      next =>
        intro fields here key redacted
        obtain rfl := Option.some.inj here
        exact fieldsOf_get (hidden r opened key redacted)
    next => exact tells_summary stored loaded shown
  next => exact tells_summary stored loaded shown

end Objects

section Handlers

variable {E : Type} {failed : Message → E} {fuel : Nat} {store : Store} {subject : SubjectContext} {value : Json.Value}

-- Each entity that the store gives is under its own id.
def Owned (fuel : Nat) (store : Store) : Prop := ∀ id e, store.get fuel id = .ok (some e) → e.1.id = id

theorem owned_of_sound {os : PageSize} {slots : Slots} {ords : Ordinals} {ids : Reverse} {map : Entities} {depth : Nat}
    (sound : Sound os store slots ords ids map depth) (enough : depth ≤ fuel) : Owned fuel store := by
  intro id e got
  rw [sound.get enough, Except.ok.injEq] at got
  exact sound.owner got

theorem readOne_some (owned : Owned fuel store) {id : Tuid} {e' : Entity}
    (read : readOne failed fuel store (some subject) id = pure (some e')) : ∃ e policies,
      store.get fuel e.1.id = .ok (some e) ∧ store.loadPolicies fuel = .ok policies ∧
        enforceOne policies subject e = some e' := by
  rw [readOne, Answer.ofStore_eq_pure] at read
  obtain ⟨e, policies, got, loaded, shown⟩ := getEnforced_some read
  rw [← owned id e got] at got
  exact ⟨e, policies, got, loaded, shown⟩

theorem listByKind_tells (owned : Owned fuel store) {kind : EntityKind}
    (made : listByKind failed fuel store (some subject) kind = pure value) : AllTell fuel store subject value := by
  obtain ⟨ids, -, made⟩ := Answer.bind_eq_pure made
  obtain ⟨found, read, made⟩ := Answer.bind_eq_pure made
  obtain rfl := Answer.pure_inj made
  intro object mem
  obtain ⟨e', inside, rfl⟩ := List.mem_map.mp mem
  obtain ⟨_, inside', rfl⟩ := List.mem_filterMap.mp inside
  obtain ⟨id, -, got⟩ := Answer.mapM_mem read _ inside'
  obtain ⟨e, policies, stored, loaded, shown⟩ := readOne_some owned got
  exact ⟨e, tells_summary stored loaded shown⟩

theorem runQuery_tells (owned : Owned fuel store) {query : Gems.Query}
    (made : runQuery failed fuel store (some subject) query = pure value) : AllTell fuel store subject value := by
  obtain ⟨entities, read, made⟩ := Answer.bind_eq_pure made
  obtain rfl := Answer.pure_inj made
  rw [Answer.ofStore_eq_pure] at read
  intro object mem
  obtain ⟨e', inside, rfl⟩ := List.mem_map.mp mem
  obtain ⟨id, e, policies, got, loaded, shown⟩ := queryEnforced_mem read inside
  rw [← owned id e got] at got
  exact ⟨e, tells_summary got loaded shown⟩

theorem readEntity_tells (owned : Owned fuel store) {missing : E} {id : Tuid}
    (made : readEntity failed fuel store (some subject) missing id = pure value) :
      AllTell fuel store subject value := by
  obtain ⟨found, read, made⟩ := Answer.bind_eq_pure made
  obtain ⟨e', present, made⟩ := Answer.bind_eq_pure made
  obtain rfl := Answer.pure_inj made
  cases found with
  | none => cases present
  | some e'' =>
    obtain rfl := Answer.pure_inj present
    obtain ⟨e, policies, stored, loaded, shown⟩ := readOne_some owned read
    intro object mem
    have single : objectsOf (entityObject e''.1 e''.2) = [entityObject e''.1 e''.2] := by
      rw [entityObject]
      split
      next => split <;> rfl
      next => rfl
    rw [single, List.mem_singleton] at mem
    obtain rfl := mem
    exact ⟨e, tells_object stored loaded shown⟩

theorem listByKind_all {os : PageSize} {slots : Slots} {ords : Ordinals} {ids : Reverse} {map : Entities} {depth : Nat}
    (rested : Rested os store slots ords ids map depth) (enough : depth ≤ fuel) (kind : EntityKind) :
    ∃ entities, listByKind failed fuel store none kind = pure (summaries entities) ∧
      ∀ e, e ∈ entities ↔ ∃ id, store.get fuel id = .ok (some e) ∧ e.1.entityKind = kind := by
  obtain ⟨list, listed, -, names⟩ := rested.linked.queryByKind enough rested.filed.byKind kind
  have got := rested.linked.sound.get enough
  have read : list.mapM (readOne failed fuel store none) = pure (list.map map) := by
    have each (id : Tuid) : readOne failed fuel store none id = pure (map id) :=
      Answer.ofStore_eq_pure.mpr (got id)
    rw [funext each]
    exact List.mapM_pure
  refine ⟨(list.map map).filterMap fun entity => entity, ?_, fun e => ?_⟩
  next =>
    rw [listByKind, Answer.ofStore_eq_pure.mpr listed, pure_bind, read, pure_bind]
  next =>
    simp only [List.mem_filterMap, List.mem_map, got, Except.ok.injEq]
    constructor
    next =>
      rintro ⟨_, ⟨id, inside, rfl⟩, known⟩
      obtain ⟨e', known', rfl⟩ := (names id).mp inside
      obtain rfl := Option.some.inj (known'.symm.trans known)
      exact ⟨id, known, rfl⟩
    next =>
      rintro ⟨id, known, rfl⟩
      exact ⟨some e, ⟨id, (names id).mpr ⟨e, known, rfl⟩, known⟩, rfl⟩

end Handlers

section Routes

variable {host : Host} {request : ReadRequest} {subject : SubjectContext} {store : Store}

theorem Host.Reached.rested (reached : host.Reached) {dir : String} (opened : host.openStore dir = .ok store) :
    ∃ slots ords ids map depth, depth ≤ host.fuel ∧ Rested host.os store slots ords ids map depth := by
  rw [Host.openStore] at opened
  cases left : host.directories dir with
  | none =>
    rw [left] at opened
    cases opened
  | some before =>
    rw [left] at opened
    obtain ⟨reachable, level⟩ := reached dir before left
    obtain ⟨slots, ords, ids, map, depth, shallow, rested⟩ := reachable.rested
    have sound := rested.linked.sound
    have flat : before.data.extents.length * stride host.os / extentSize = before.data.extents.length := by
      rw [← sound.data.held.mapped]
      exact level
    obtain ⟨store', again, reopened⟩ := sound.onDisk.openDir (Set.Subset.refl _) flat shallow
    obtain rfl : store' = store := Except.ok.inj (again.symm.trans opened)
    exact ⟨slots, ords, ids, map, depth, shallow, reopened.rested rested⟩

theorem Webui.authorize_eq {req : Webui.Request}
    (verified : host.auth.authorize req.bearerToken host.now = pure (some subject)) :
    Webui.authorize host req = pure (some subject) := by
  rw [Webui.authorize, verified]
  rfl

theorem Webui.openStore_eq {req : Webui.Request}
    (opened : ∃ dir, req.queryParam "store_dir" = some dir ∧ host.openStore dir = .ok store) :
    Webui.openStore host req = pure store := by
  obtain ⟨dir, named, opened⟩ := opened
  rw [Webui.openStore, named]
  exact Answer.ofStore_eq_pure.mpr opened

theorem authorize_some {token : Option String} {secret : List UInt8} (enforced : host.auth = .enforced secret)
    {caller : Option SubjectContext} (verified : host.auth.authorize token host.now = pure caller) :
    ∃ subject, caller = some subject := by
  rw [enforced] at verified
  cases token with
  | none => cases verified
  | some token =>
    rw [AuthMode.authorize] at verified
    cases read : Token.verify secret token host.now with
    | error fault =>
      rw [read] at verified
      cases verified
    | ok result =>
      rw [read] at verified
      cases result with
      | error e => cases verified
      | ok subject => exact ⟨subject, (Answer.pure_inj (E := TokenError) verified).symm⟩

-- Nothing is answered before the caller is known and the store is open.
theorem Webui.answered {req : Webui.Request} {secret : List UInt8} (enforced : host.auth = .enforced secret)
    {A : Type} {rest : Option SubjectContext → Store → Webui.ApiResult A} {a : A}
    (made : (Webui.authorize host req >>= fun caller => Webui.openStore host req >>= rest caller) = pure a) :
    ∃ subject store, host.auth.authorize req.bearerToken host.now = pure (some subject) ∧
      ∃ dir, req.queryParam "store_dir" = some dir ∧ host.openStore dir = .ok store := by
  obtain ⟨caller, verified, made⟩ := Answer.bind_eq_pure made
  obtain ⟨store, opened, -⟩ := Answer.bind_eq_pure made
  obtain ⟨dir, named, opened⟩ := Answer.bind_eq_pure opened
  have verified := Answer.ofToken_eq_pure.mp verified
  obtain ⟨subject, rfl⟩ := authorize_some enforced verified
  exact ⟨subject, store, verified, dir, Answer.required_eq_pure.mp named, Answer.ofStore_eq_pure.mp opened⟩

theorem Mcp.answered {args : Json.Value} {secret : List UInt8} (enforced : host.auth = .enforced secret)
    {A : Type} {rest : Option SubjectContext → Store → Mcp.ToolResult A} {a : A}
    (made : (Mcp.authorize host args >>= fun caller => Mcp.openStore host args >>= rest caller) = pure a) :
    ∃ subject store, host.auth.authorize (Mcp.argument args "auth_token") host.now = pure (some subject) ∧
      ∃ dir, Mcp.argument args "store_dir" = some dir ∧ host.openStore dir = .ok store := by
  obtain ⟨caller, verified, made⟩ := Answer.bind_eq_pure made
  obtain ⟨store, opened, -⟩ := Answer.bind_eq_pure made
  obtain ⟨dir, named, opened⟩ := Answer.bind_eq_pure opened
  have verified := Answer.ofToken_eq_pure.mp verified
  obtain ⟨subject, rfl⟩ := authorize_some enforced verified
  exact ⟨subject, store, verified, dir, Answer.required_eq_pure.mp named, Answer.ofStore_eq_pure.mp opened⟩

theorem reads_of_response {secret : List UInt8} (enforced : host.auth = .enforced secret) {value : Json.Value}
    (answered : request.response host = some value) : ∃ subject store, request.Reads host subject store := by
  cases request with
  | listTypes req =>
    obtain ⟨subject, store, verified, opened⟩ := Webui.answered enforced (outcome_eq_some.mp answered)
    exact ⟨subject, store, verified, opened⟩
  | query req =>
    obtain ⟨subject, store, verified, opened⟩ := Webui.answered enforced (outcome_eq_some.mp answered)
    exact ⟨subject, store, verified, opened⟩
  | getEntity req =>
    obtain ⟨subject, store, verified, opened⟩ := Webui.answered enforced (outcome_eq_some.mp answered)
    exact ⟨subject, store, verified, opened⟩
  | listSubjects req =>
    obtain ⟨subject, store, verified, opened⟩ := Webui.answered enforced (outcome_eq_some.mp answered)
    exact ⟨subject, store, verified, opened⟩
  | listRoles req =>
    obtain ⟨subject, store, verified, opened⟩ := Webui.answered enforced (outcome_eq_some.mp answered)
    exact ⟨subject, store, verified, opened⟩
  | listPolicies req =>
    obtain ⟨subject, store, verified, opened⟩ := Webui.answered enforced (outcome_eq_some.mp answered)
    exact ⟨subject, store, verified, opened⟩
  | toolQuery args =>
    obtain ⟨subject, store, verified, opened⟩ := Mcp.answered enforced (outcome_eq_some.mp answered)
    exact ⟨subject, store, verified, opened⟩
  | toolGetEntity args =>
    obtain ⟨subject, store, verified, opened⟩ := Mcp.answered enforced (outcome_eq_some.mp answered)
    exact ⟨subject, store, verified, opened⟩
  | toolListEntityTypes args =>
    obtain ⟨subject, store, verified, opened⟩ := Mcp.answered enforced (outcome_eq_some.mp answered)
    exact ⟨subject, store, verified, opened⟩

theorem ReadRequest.Reads.unique {subject' : SubjectContext} {store' : Store}
    (reads : request.Reads host subject store) (reads' : request.Reads host subject' store') :
    subject = subject' ∧ store = store' := by
  obtain ⟨dir, named, opened⟩ := reads.opened
  obtain ⟨dir', named', opened'⟩ := reads'.opened
  obtain rfl := Option.some.inj (named.symm.trans named')
  refine ⟨?_, Except.ok.inj (opened.symm.trans opened')⟩
  exact Option.some.inj (Answer.pure_inj (E := TokenError) (reads.verified.symm.trans reads'.verified))

theorem Mcp.authorize_eq {args : Json.Value}
    (verified : host.auth.authorize (Mcp.argument args "auth_token") host.now = pure (some subject)) :
    Mcp.authorize host args = pure (some subject) := by
  rw [Mcp.authorize, verified]
  rfl

theorem Mcp.openStore_eq {args : Json.Value}
    (opened : ∃ dir, Mcp.argument args "store_dir" = some dir ∧ host.openStore dir = .ok store) :
    Mcp.openStore host args = pure store := by
  obtain ⟨dir, named, opened⟩ := opened
  rw [Mcp.openStore, named]
  exact Answer.ofStore_eq_pure.mpr opened

theorem response_tells (reads : request.Reads host subject store) (owned : Owned host.fuel store)
    (other : request.listsTypes = false) {value : Json.Value} (answered : request.response host = some value) :
    AllTell host.fuel store subject value := by
  obtain ⟨verified, opened⟩ := reads
  cases request with
  | listTypes req => cases other
  | toolListEntityTypes args => cases other
  | query req =>
    have made := outcome_eq_some.mp answered
    rw [Webui.query, Webui.authorize_eq verified, pure_bind, Webui.openStore_eq opened, pure_bind] at made
    obtain ⟨queryStr, -, made⟩ := Answer.bind_eq_pure made
    obtain ⟨parsed, -, made⟩ := Answer.bind_eq_pure made
    exact runQuery_tells owned made
  | getEntity req =>
    have made := outcome_eq_some.mp answered
    rw [Webui.getEntity, Webui.authorize_eq verified, pure_bind, Webui.openStore_eq opened, pure_bind] at made
    obtain ⟨idHex, -, made⟩ := Answer.bind_eq_pure made
    obtain ⟨found, -, made⟩ := Answer.bind_eq_pure made
    obtain ⟨id, -, made⟩ := Answer.bind_eq_pure made
    exact readEntity_tells owned made
  | listSubjects req =>
    have made := outcome_eq_some.mp answered
    rw [Webui.listSubjects, Webui.listByKindEnforced, Webui.authorize_eq verified, pure_bind,
      Webui.openStore_eq opened, pure_bind] at made
    exact listByKind_tells owned made
  | listRoles req =>
    have made := outcome_eq_some.mp answered
    rw [Webui.listRoles, Webui.listByKindEnforced, Webui.authorize_eq verified, pure_bind,
      Webui.openStore_eq opened, pure_bind] at made
    exact listByKind_tells owned made
  | listPolicies req =>
    have made := outcome_eq_some.mp answered
    rw [Webui.listPolicies, Webui.listByKindEnforced, Webui.authorize_eq verified, pure_bind,
      Webui.openStore_eq opened, pure_bind] at made
    exact listByKind_tells owned made
  | toolQuery args =>
    have made := outcome_eq_some.mp answered
    rw [Mcp.query, Mcp.authorize_eq verified, pure_bind, Mcp.openStore_eq opened, pure_bind] at made
    obtain ⟨queryStr, -, made⟩ := Answer.bind_eq_pure made
    obtain ⟨parsed, -, made⟩ := Answer.bind_eq_pure made
    exact runQuery_tells owned made
  | toolGetEntity args =>
    have made := outcome_eq_some.mp answered
    rw [Mcp.getEntity, Mcp.authorize_eq verified, pure_bind, Mcp.openStore_eq opened, pure_bind] at made
    obtain ⟨idHex, -, made⟩ := Answer.bind_eq_pure made
    obtain ⟨found, -, made⟩ := Answer.bind_eq_pure made
    obtain ⟨id, -, made⟩ := Answer.bind_eq_pure made
    exact readEntity_tells owned made

theorem response_types (reads : request.Reads host subject store) (types : request.listsTypes = true) :
    ∃ (E : Type) (failed : Message → E),
      request.response host = outcome (listByKind failed host.fuel store none .entityType) := by
  obtain ⟨verified, opened⟩ := reads
  cases request with
  | listTypes req =>
    refine ⟨_, Webui.status 500, ?_⟩
    rw [ReadRequest.response, Webui.listTypes, Webui.authorize_eq verified, pure_bind, Webui.openStore_eq opened,
      pure_bind]
  | toolListEntityTypes args =>
    refine ⟨_, id, ?_⟩
    rw [ReadRequest.response, Mcp.listEntityTypes, Mcp.authorize_eq verified, pure_bind, Mcp.openStore_eq opened,
      pure_bind]
  | _ => cases types

-- Every entity type is told of, so each has to be permitted.
theorem Mediated.types_permitted (mediated : Mediated host request) (reached : host.Reached)
    (types : request.listsTypes = true) (reads : request.Reads host subject store) {id : Tuid} {e : Entity}
    (got : store.get host.fuel id = .ok (some e)) (kind : e.1.entityKind = .entityType) :
    ∃ redacted, Permits host.fuel store subject e redacted := by
  obtain ⟨slots, ords, ids, map, depth, shallow, rested⟩ := reached.rested reads.opened.choose_spec.2
  obtain ⟨E, failed, listing⟩ := response_types reads types
  obtain ⟨entities, made, mem⟩ : ∃ entities, listByKind failed host.fuel store none .entityType =
    pure (summaries entities) ∧ _ := listByKind_all rested shallow .entityType
  have answered : request.response host = some (summaries entities) := by
    rw [listing, outcome_eq_some]
    exact made
  obtain ⟨subject', store', reads', tells⟩ := mediated _ answered
  obtain ⟨rfl, rfl⟩ := reads.unique reads'
  have inside : .object (entitySummary e.1) ∈ objectsOf (summaries entities) :=
    List.mem_map.mpr ⟨e, (mem e).mpr ⟨id, got, kind⟩, rfl⟩
  obtain ⟨e', redacted, told⟩ := tells _ inside
  have text : e.1.id.toHexString = e'.1.id.toHexString := Json.Value.string.inj (Option.some.inj told.id)
  have sameId : e.1.id = e'.1.id := Tuid.toHexString_injective text
  have owner := owned_of_sound rested.linked.sound shallow id e got
  have stored := told.stored
  rw [← sameId, owner, got] at stored
  obtain rfl := Option.some.inj (Except.ok.inj stored)
  exact ⟨redacted, told.permitted⟩

/-- An answer tells of nothing but what the policies permit, unless it lists an entity type that they do not. -/
theorem mediated_iff {secret : List UInt8} (enforced : host.auth = .enforced secret) (reached : host.Reached)
    (request : ReadRequest) : Mediated host request ↔
      (request.listsTypes = true → ∀ subject store, request.Reads host subject store → ∀ id e,
        store.get host.fuel id = .ok (some e) → e.1.entityKind = .entityType →
          ∃ redacted, Permits host.fuel store subject e redacted) := by
  constructor
  next => exact fun mediated types subject store reads id e => mediated.types_permitted reached types reads
  next =>
    intro permitted value answered
    obtain ⟨subject, store, reads⟩ := reads_of_response enforced answered
    obtain ⟨slots, ords, ids, map, depth, shallow, rested⟩ := reached.rested reads.opened.choose_spec.2
    have owned : Owned host.fuel store := owned_of_sound rested.linked.sound shallow
    refine ⟨subject, store, reads, ?_⟩
    cases types : request.listsTypes with
    | false => exact response_tells reads owned types answered
    | true =>
      obtain ⟨E, failed, listing⟩ := response_types reads types
      obtain ⟨entities, made, mem⟩ : ∃ entities, listByKind failed host.fuel store none .entityType =
        pure (summaries entities) ∧ _ := listByKind_all rested shallow .entityType
      rw [listing, made] at answered
      obtain rfl := Option.some.inj answered
      intro object inside
      obtain ⟨e, listed, rfl⟩ := List.mem_map.mp inside
      obtain ⟨id, got, kind⟩ := (mem e).mp listed
      obtain ⟨redacted, permits⟩ := permitted types subject store reads id e got kind
      rw [← owned id e got] at got
      exact ⟨e, redacted, tells_permitted got permits⟩

end Routes

section Listed

variable {left : Store}

def typeHeader : EntityHeader := .new (.fromBytes []) .nil "widget" .entityType .nil

def typeCalls : List Call := [.insert typeHeader []]

theorem typeCalls_run {start : Store} (created : Store.create fourKiB = .ok start) :
    ∃ given left, runCalls fourKiB 3 typeCalls start = (.ok given, left) := by
  have small : fourKiB.size ≤ 16384 := show 4096 ≤ 16384 by omega
  exact runCalls_returns small created (by simp [typeCalls]) (by decide) (by omega)

theorem type_stored : ∃ left slots ords ids depth, Engine.Reachable fourKiB 3 left ∧ Level left.data ∧ depth ≤ 3 ∧
    Rested fourKiB left slots ords ids (shown (contents typeCalls fun _ => none)) depth := by
  have small : fourKiB.size ≤ 16384 := show 4096 ≤ 16384 by omega
  obtain ⟨start, created, sound, none, -⟩ := create_sound fourKiB
  have sound : Sound fourKiB start (fun _ => Option.none) (fun _ => Option.none) (fun _ => Option.none)
      (shown fun _ => Option.none) 0 := sound
  obtain ⟨given, left, made⟩ := typeCalls_run created
  have few : Within fourKiB 3 1000 typeCalls start := within_of_short small sound
    (by decide) (by simp [none, typeCalls])
  obtain ⟨reach, slots, ords, ids, depth, shallow, rested⟩ := run_rested created (by decide) made
  exact ⟨left, slots, ords, ids, depth, reach, rested.linked.sound.level small (few.last made), shallow, rested⟩

def typeHost (left : Store) : Host where
  os := fourKiB
  fuel := 3
  unicode := .ascii
  directories _ := some left
  auth := .enforced [1]
  now := 0

def typesRequest : ReadRequest := .listTypes
  { query := [("store_dir", "data")]
    headers := [("authorization", "Bearer " ++ Token.issue [1] anyone none)] }

theorem typesRequest_token : typesRequest.token = some (Token.issue [1] anyone none) :=
  Webui.Request.bearerToken_of_header rfl

theorem typesRequest_reads {slots : Slots} {ords : Ordinals} {ids : Reverse} {map : Entities} {depth : Nat}
    (shallow : depth ≤ 3) (level : Level left.data) (rested : Rested fourKiB left slots ords ids map depth) :
    ∃ store, typesRequest.Reads (typeHost left) anyone store ∧ Rested fourKiB store slots ords ids map depth := by
  have flat : left.data.extents.length * stride fourKiB / extentSize = left.data.extents.length := by
    rw [← rested.linked.sound.data.held.mapped]
    exact level
  obtain ⟨store, opened, reopened⟩ := rested.linked.sound.onDisk.openDir (Set.Subset.refl _) flat shallow
  refine ⟨store, ⟨?_, "data", rfl, opened⟩, reopened.rested rested⟩
  have verified : Token.verify [1] (Token.issue [1] anyone none) 0 = pure anyone :=
    Token.verify_issued none fun _ none => by cases none
  rw [typesRequest_token]
  change some <$> Token.verify [1] (Token.issue [1] anyone none) 0 = _
  rw [verified]
  rfl

theorem typeHost_reached (reach : Engine.Reachable fourKiB 3 left) (level : Level left.data) :
    (typeHost left).Reached := by
  intro dir left' here
  obtain rfl := Option.some.inj here
  exact ⟨reach, level⟩

theorem mediated_iff_types : ∃ left, (typeHost left).auth = .enforced [1] ∧ (typeHost left).Reached ∧
    (Mediated (typeHost left) typesRequest ↔
      (typesRequest.listsTypes = true → ∀ subject store, typesRequest.Reads (typeHost left) subject store → ∀ id e,
        store.get 3 id = .ok (some e) → e.1.entityKind = .entityType →
          ∃ redacted, Permits 3 store subject e redacted)) := by
  obtain ⟨left, -, -, -, -, reach, level, -⟩ := type_stored
  have reached := typeHost_reached reach level
  exact ⟨left, rfl, reached, mediated_iff rfl reached typesRequest⟩

/-- The type is listed to a caller to whom nothing is permitted. -/
theorem types_shown_to_anyone : ∃ left, (typeHost left).auth = .enforced [1] ∧ (typeHost left).Reached ∧
    ¬ Mediated (typeHost left) typesRequest := by
  obtain ⟨left, slots, ords, ids, depth, reach, level, shallow, rested⟩ := type_stored
  have reached := typeHost_reached reach level
  refine ⟨left, rfl, reached, fun mediated => ?_⟩
  obtain ⟨store, reads, rested'⟩ := typesRequest_reads shallow level rested
  have got := rested'.linked.sound.get shallow
  have known : shown (contents typeCalls fun _ => none) =
      Function.update (fun _ => none) typeHeader.id (some (stored typeHeader [])) := by
    rw [contents, typeCalls, List.foldl_cons, List.foldl_nil, Call.onMap, if_pos (by decide), shown_update]
    rfl
  have held : store.get 3 typeHeader.id = .ok (some (stored typeHeader [])) := by
    rw [got, known, Function.update_self]
  obtain ⟨redacted, policies, loaded, permitted⟩ := mediated.types_permitted reached rfl reads held rfl
  obtain ⟨list, listed, -, names⟩ := rested'.linked.queryByKind shallow rested'.filed.byKind .policy
  have none : list = [] := by
    refine List.eq_nil_iff_forall_not_mem.mpr fun id mem => ?_
    obtain ⟨e, here, kind⟩ := (names id).mp mem
    rw [known] at here
    by_cases same : id = typeHeader.id
    next =>
      subst same
      rw [Function.update_self] at here
      obtain rfl := Option.some.inj here
      cases kind
    next =>
      rw [Function.update_of_ne same] at here
      cases here
  have loaded : store.loadPolicies 3 = .ok policies := loaded
  rw [Store.loadPolicies, listed, none] at loaded
  obtain rfl : [] = policies := Except.ok.inj loaded
  cases permitted

end Listed

end Gems.Frontend
