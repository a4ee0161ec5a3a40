import Gems.Cluster.Sharded
import Gems.Frontend.Mediation
import Gems.Frontend.Writes

set_option autoImplicit false

namespace Gems.Frontend.Webui

open Lib Acting Catalog Codec Engine Abac Cluster

variable {host : Host} {req : HttpRequest} {client : ShardedClient} {P : SocketAddr × LogRecord → Prop}
  {names : List String} {store : Store} {subject : SubjectContext}

section Statement

/-- The request carries a token of the server's own, whose subject holds a role that the opened store names so. -/
def Entitled (host : Host) (req : HttpRequest) (names : List String) : Prop :=
  ∃ subject store, host.auth.authorize req.bearerToken host.now = pure (some subject) ∧
    (∃ dir, req.queryParam "store_dir" = some dir ∧ host.openStore dir = .ok store) ∧
    ∃ role ∈ subject.roles, ∃ e, store.get host.fuel role = .ok (some e) ∧ e.1.entityKind = .role ∧ e.1.name ∈ names

/-- The request tells the server's secret, and the opened store has no role of the admin's name. -/
def SettingUp (host : Host) (req : HttpRequest) : Prop :=
  ∃ secret payload told store, host.auth = .enforced secret ∧
    (∃ text, fromUtf8 req.body = some text ∧ Json.parse text = .ok payload) ∧
    strField payload "setup_secret" = some told ∧ utf8 told = secret ∧
    (∃ dir, req.queryParam "store_dir" = some dir ∧ host.openStore dir = .ok store) ∧
    ∀ id e, store.get host.fuel id = .ok (some e) → e.1.entityKind = .role → e.1.name ≠ adminRoleName

/-- What a request may have written for it. -/
inductive Grants (host : Host) (req : HttpRequest) : LogRecord → Prop where
  | saveEntity {header : EntityHeader} {body : List UInt8} (path : req.path = "/api/entities/save")
      (entitled : Entitled host req dataRoles) (kind : header.entityKind = .data) :
        Grants host req (.insert header body)
  | deleteEntity {id : Tuid} (path : req.path = "/api/entities/delete") (entitled : Entitled host req dataRoles) :
      Grants host req (.delete id)
  | save {header : EntityHeader} {body : List UInt8}
      (kind : (req.path, header.entityKind) ∈ [("/api/types/save", EntityKind.entityType),
        ("/api/subjects/save", .subject), ("/api/policies/save", .policy)])
      (entitled : Entitled host req [adminRoleName]) : Grants host req (.insert header body)
  | delete {id : Tuid} (path : req.path ∈ ["/api/types/delete", "/api/policies/delete"])
      (entitled : Entitled host req [adminRoleName]) : Grants host req (.delete id)
  | setup {header : EntityHeader} {body : List UInt8} (path : req.path = "/api/setup") (settingUp : SettingUp host req)
      (kind : header.entityKind ∈ [EntityKind.role, .policy, .subject]) : Grants host req (.insert header body)

/-- A request that arrives, with the host as it is then. -/
structure Arrival where
  host : Host
  req : HttpRequest

-- The server answers one request after the other.
def serve (cluster : Option ShardedClient) : List Arrival → Session → Session
  | [], s => s
  | arrival :: rest, s => serve cluster rest ((route arrival.host arrival.req cluster).perform s).2

end Statement

section Quiet

def Quiet {A : Type} (m : WriteResult A) : Prop := Keeps (Session.Adds fun _ => False) m

variable {A B : Type} {m : WriteResult A} {f : A → WriteResult B}

theorem Quiet.keeps (quiet : Quiet m) : Keeps (Session.Adds P) m := fun s => (quiet s).imp fun _ none => none.elim

theorem Quiet.bind (first : Quiet m) (rest : ∀ a, Keeps (Session.Adds P) (f a)) : Keeps (Session.Adds P) (m >>= f) :=
  keeps_bind Session.Adds.trans first.keeps rest

theorem quiet_pure (a : A) : Quiet (pure a : WriteResult A) := keeps_pure Session.adds_refl a

theorem quiet_raise (e : WriteError) : Quiet (raise e : WriteResult A) := keeps_raise Session.adds_refl e

theorem quiet_reads (answer : ApiResult A) : Quiet (reads answer) := keeps_still Session.adds_refl _

theorem quiet_orRefuse (code : Nat) (text : String) (found : Option A) : Quiet (orRefuse code text found) := by
  cases found with
  | none => exact quiet_raise _
  | some a => exact quiet_pure a

theorem quiet_generate : Quiet generate :=
  Quiet.bind (keeps_view Session.adds_refl) fun _ =>
    Quiet.bind (keeps_update fun _ => Session.adds_refl _) fun _ => quiet_pure _

theorem quiet_orGenerate (known : Option Tuid) : Quiet (orGenerate known) := by
  cases known with
  | some id => exact quiet_pure id
  | none => exact quiet_generate

theorem quiet_jsonBody : Quiet (jsonBody req) := by
  rw [jsonBody]
  split
  · exact quiet_raise _
  · split
    · exact quiet_pure _
    · exact quiet_raise _

theorem quiet_tuidField (key hex : String) : Quiet (tuidField key hex) :=
  Quiet.bind (keeps_still Session.adds_refl _) fun _ => quiet_orRefuse _ _ _

theorem quiet_requiredTuid (body : Json.Value) (key : String) : Quiet (requiredTuid body key) :=
  Quiet.bind (quiet_orRefuse _ _ _) fun hex => quiet_tuidField key hex

theorem quiet_optionalTuid (body : Json.Value) (key : String) : Quiet (optionalTuid body key) := by
  rw [optionalTuid]
  split
  · exact Quiet.bind (quiet_tuidField _ _) fun _ => quiet_pure _
  · exact quiet_pure _

theorem keeps_newHeader {id schemaRef : Tuid} {name : String} {kind : EntityKind}
    {f : EntityHeader → WriteResult B}
    (rest : ∀ placeholder, Keeps (Session.Adds P) (f (.new placeholder id name kind schemaRef))) :
    Keeps (Session.Adds P) (newHeader id name kind schemaRef >>= f) := by
  rw [newHeader, bind_assoc]
  refine Quiet.bind quiet_generate fun placeholder => ?_
  rw [pure_bind]
  exact rest (uuid placeholder)

theorem keeps_reads {answer : ApiResult A} {f : A → WriteResult B}
    (rest : ∀ a, answer = pure a → Keeps (Session.Adds P) (f a)) : Keeps (Session.Adds P) (reads answer >>= f) := by
  refine keeps_known Session.adds_refl fun a made => rest a ?_
  cases answer with
  | error fault => cases made
  | ok result =>
    cases result with
    | error e => cases made
    | ok a' =>
      obtain rfl : a' = a := Answer.pure_inj (E := WriteError) made
      rfl

theorem keeps_proposeRecord {id : Tuid} {record : LogRecord}
    (holds : ∀ addr, Routed client id addr → P (addr, record)) :
    Keeps (Session.Adds P) (proposeRecord client id record) := by
  have sends : Keeps (Session.Adds P) (client.propose id record) := fun s =>
    (keeps_propose client id record s).imp fun message sent => by
      obtain ⟨addr, command⟩ := message
      obtain ⟨rfl, routed⟩ := sent
      exact holds addr routed
  exact keeps_bind Session.Adds.trans (keeps_adapt sends) fun _ => keeps_pure Session.adds_refl ()

end Quiet

section Roles

variable {name : String} {ids : List Tuid}

theorem findRole_some {id : Tuid} (found : findRole host store name ids = pure (some id)) :
    id ∈ ids ∧ ∃ e, store.get host.fuel id = .ok (some e) ∧ e.1.name = name := by
  induction ids with
  | nil => cases Answer.pure_inj (E := Nat × Message) found
  | cons first rest ih =>
    obtain ⟨e, got, found⟩ := Answer.bind_eq_pure found
    have got := Answer.ofStore_eq_pure.mp got
    cases e with
    | none => exact (ih found).imp (List.mem_cons_of_mem first) fun e => e
    | some e =>
      dsimp only at found
      split at found
      next named =>
        obtain rfl := Option.some.inj (Answer.pure_inj found)
        exact ⟨List.mem_cons_self, e, got, named⟩
      next => exact (ih found).imp (List.mem_cons_of_mem first) fun e => e

theorem findRole_none (found : findRole host store name ids = pure none) :
    ∀ id ∈ ids, ∀ e, store.get host.fuel id = .ok (some e) → e.1.name ≠ name := by
  induction ids with
  | nil => exact fun id none => absurd none List.not_mem_nil
  | cons first rest ih =>
    obtain ⟨e, got, found⟩ := Answer.bind_eq_pure found
    have got := Answer.ofStore_eq_pure.mp got
    intro id mem e' got' named
    cases e with
    | none =>
      rcases List.mem_cons.mp mem with rfl | later
      · cases got.symm.trans got'
      · exact ih found id later e' got' named
    | some e =>
      dsimp only at found
      split at found
      next => cases Answer.pure_inj found
      next other =>
        rcases List.mem_cons.mp mem with rfl | later
        · obtain rfl := Option.some.inj (Except.ok.inj (got.symm.trans got'))
          exact other named
        · exact ih found id later e' got' named

theorem roles_listed (reached : host.Reached) {dir : String} (opened : host.openStore dir = .ok store)
    (listed : store.queryByKind host.fuel .role = .ok ids) (id : Tuid) :
    id ∈ ids ↔ ∃ e, store.get host.fuel id = .ok (some e) ∧ e.1.entityKind = .role := by
  obtain ⟨slots, ords, reverse, map, depth, shallow, rested⟩ := reached.rested opened
  obtain ⟨list, made, -, mem⟩ := rested.linked.queryByKind shallow rested.filed.byKind .role
  obtain rfl : list = ids := Except.ok.inj (made.symm.trans listed)
  rw [mem]
  simp only [rested.linked.sound.get shallow, Except.ok.injEq]

theorem roleIdByName_some (reached : host.Reached) {dir : String} (opened : host.openStore dir = .ok store) {id : Tuid}
    (found : roleIdByName host store name = pure (some id)) :
    ∃ e, store.get host.fuel id = .ok (some e) ∧ e.1.entityKind = .role ∧ e.1.name = name := by
  obtain ⟨ids, listed, found⟩ := Answer.bind_eq_pure found
  obtain ⟨mem, e, got, named⟩ := findRole_some found
  obtain ⟨e', got', kind⟩ := (roles_listed reached opened (Answer.ofStore_eq_pure.mp listed) id).mp mem
  obtain rfl := Option.some.inj (Except.ok.inj (got.symm.trans got'))
  exact ⟨e, got, kind, named⟩

theorem roleIdByName_none (reached : host.Reached) {dir : String} (opened : host.openStore dir = .ok store)
    (found : roleIdByName host store name = pure none) :
    ∀ id e, store.get host.fuel id = .ok (some e) → e.1.entityKind = .role → e.1.name ≠ name := by
  obtain ⟨ids, listed, found⟩ := Answer.bind_eq_pure found
  intro id e got kind
  have mem := (roles_listed reached opened (Answer.ofStore_eq_pure.mp listed) id).mpr ⟨e, got, kind⟩
  exact findRole_none found id mem e got

theorem holdsRole_true (reached : host.Reached) {dir : String} (opened : host.openStore dir = .ok store)
    (holds : holdsRole host store subject names = pure true) :
    ∃ role ∈ subject.roles, ∃ e, store.get host.fuel role = .ok (some e) ∧ e.1.entityKind = .role ∧
      e.1.name ∈ names := by
  induction names with
  | nil => cases Answer.pure_inj (E := Nat × Message) holds
  | cons name rest ih =>
    obtain ⟨found, made, holds⟩ := Answer.bind_eq_pure holds
    cases found with
    | none =>
      obtain ⟨role, inside, e, got, kind, named⟩ := ih holds
      exact ⟨role, inside, e, got, kind, List.mem_cons_of_mem name named⟩
    | some roleId =>
      dsimp only at holds
      split at holds
      next inside =>
        obtain ⟨e, got, kind, named⟩ := roleIdByName_some reached opened made
        exact ⟨roleId, inside, e, got, kind, List.mem_cons.mpr (.inl named)⟩
      next =>
        obtain ⟨role, inside, e, got, kind, named⟩ := ih holds
        exact ⟨role, inside, e, got, kind, List.mem_cons_of_mem name named⟩

theorem admit_entitled {secret : List UInt8} (enforced : host.auth = .enforced secret) (reached : host.Reached)
    (admitted : admission host req.toRequest names = pure store) : Entitled host req names := by
  obtain ⟨caller, verified, admitted⟩ := Answer.bind_eq_pure admitted
  obtain ⟨store', opened, admitted⟩ := Answer.bind_eq_pure admitted
  obtain ⟨_, required, -⟩ := Answer.bind_eq_pure admitted
  have verified := Answer.ofToken_eq_pure.mp verified
  obtain ⟨subject, rfl⟩ := authorize_some enforced verified
  obtain ⟨dir, named, opened⟩ := Answer.bind_eq_pure opened
  have opened := Answer.ofStore_eq_pure.mp opened
  obtain ⟨held, holds, required⟩ := Answer.bind_eq_pure required
  cases held with
  | false => cases required
  | true =>
    exact ⟨subject, store', verified, ⟨dir, Answer.required_eq_pure.mp named, opened⟩,
      holdsRole_true reached opened holds⟩

end Roles

section Handlers

/-- It goes to the shard of its entity, and the request may have it written. -/
def Mandated (host : Host) (req : HttpRequest) (client : ShardedClient) (message : SocketAddr × LogRecord) : Prop :=
  Routed client message.2.entityId message.1 ∧ Grants host req message.2

variable {secret : List UInt8}

theorem keeps_record {record : LogRecord} {id : Tuid} (about : record.entityId = id) (grants : Grants host req record) :
    Keeps (Session.Adds (Mandated host req client)) (proposeRecord client id record) :=
  keeps_proposeRecord fun _ routed => ⟨about ▸ routed, grants⟩

theorem saveEntity_mandated (enforced : host.auth = .enforced secret) (reached : host.Reached)
    (path : req.path = "/api/entities/save") :
    Keeps (Session.Adds (Mandated host req client)) (saveEntity host client req) := by
  refine keeps_reads fun store admitted => ?_
  have entitled := admit_entitled enforced reached admitted
  refine Quiet.bind quiet_jsonBody fun payload => ?_
  refine Quiet.bind (quiet_requiredTuid payload "type") fun typeId => ?_
  refine Quiet.bind (quiet_orRefuse _ _ _) fun name => ?_
  refine Quiet.bind (quiet_optionalTuid payload "id") fun known => ?_
  refine Quiet.bind (quiet_orGenerate known) fun id => ?_
  refine keeps_newHeader fun placeholder => ?_
  exact keeps_bind Session.Adds.trans (keeps_record rfl (.saveEntity path entitled rfl)) fun _ => (quiet_pure _).keeps

theorem deleteBy_mandated (enforced : host.auth = .enforced secret) (reached : host.Reached)
    (grants : Entitled host req names → ∀ id, Grants host req (.delete id)) :
    Keeps (Session.Adds (Mandated host req client)) (deleteBy host client req names) := by
  refine keeps_reads fun store admitted => ?_
  have entitled := admit_entitled enforced reached admitted
  refine Quiet.bind quiet_jsonBody fun payload => ?_
  refine Quiet.bind (quiet_requiredTuid payload "id") fun id => ?_
  exact keeps_bind Session.Adds.trans (keeps_record rfl (grants entitled id)) fun _ => (quiet_pure _).keeps

theorem saveNamed_mandated (enforced : host.auth = .enforced secret) (reached : host.Reached) {kind : EntityKind}
    {body : List UInt8} (grants : Entitled host req [adminRoleName] → ∀ header : EntityHeader,
      header.entityKind = kind → Grants host req (.insert header body)) :
    Keeps (Session.Adds (Mandated host req client)) (saveNamed host client req kind body) := by
  refine keeps_reads fun store admitted => ?_
  have entitled := admit_entitled enforced reached admitted
  refine Quiet.bind quiet_jsonBody fun payload => ?_
  refine Quiet.bind (quiet_orRefuse _ _ _) fun name => ?_
  refine Quiet.bind quiet_generate fun id => ?_
  refine keeps_newHeader fun placeholder => ?_
  exact keeps_bind Session.Adds.trans (keeps_record rfl (grants entitled _ rfl)) fun _ => (quiet_pure _).keeps

theorem quiet_namedRole (name : String) : Quiet (namedRole host store name) :=
  Quiet.bind (quiet_reads _) fun _ => quiet_orRefuse _ _ _

theorem quiet_namedRoles (names : List Json.Value) : Quiet (namedRoles host store names) := by
  induction names with
  | nil => exact quiet_pure _
  | cons name rest ih =>
    exact Quiet.bind (quiet_orRefuse _ _ _) fun name => Quiet.bind (quiet_namedRole name) fun role =>
      Quiet.bind ih fun roles => quiet_pure _

theorem quiet_issueToken : Quiet (issueToken host req) := by
  refine Quiet.bind (quiet_reads _) fun store => ?_
  split
  · exact quiet_raise _
  · exact Quiet.bind quiet_jsonBody fun payload => Quiet.bind (quiet_requiredTuid _ _) fun subjectId =>
      Quiet.bind (quiet_orRefuse _ _ _) fun roleNames => Quiet.bind (quiet_namedRoles roleNames) fun roles =>
        quiet_pure _

theorem quiet_parseEntityKind (name : String) : Quiet (parseEntityKind name) := by
  rw [parseEntityKind]
  split_ifs
  · exact quiet_pure _
  · exact quiet_pure _
  · exact quiet_pure _
  · exact quiet_pure _
  · exact quiet_pure _
  · exact quiet_raise _

theorem quiet_parseEffect (name : String) : Quiet (parseEffect name) := by
  rw [parseEffect]
  split_ifs
  · exact quiet_pure _
  · exact quiet_pure _
  · exact quiet_raise _

theorem quiet_targetKind (payload : Json.Value) : Quiet (targetKind payload) := by
  rw [targetKind]
  split
  · exact Quiet.bind (quiet_parseEntityKind _) fun _ => quiet_pure _
  · exact quiet_pure _

theorem quiet_policyRole (payload : Json.Value) : Quiet (policyRole host store payload) := by
  rw [policyRole]
  split
  · exact quiet_namedRole _
  · exact quiet_pure _

theorem savePolicy_mandated (enforced : host.auth = .enforced secret) (reached : host.Reached)
    (path : req.path = "/api/policies/save") :
    Keeps (Session.Adds (Mandated host req client)) (savePolicy host client req) := by
  refine keeps_reads fun store admitted => ?_
  have entitled := admit_entitled enforced reached admitted
  refine Quiet.bind quiet_jsonBody fun payload => ?_
  refine Quiet.bind (quiet_orRefuse _ _ _) fun effect => ?_
  refine Quiet.bind (quiet_parseEffect effect) fun effect => ?_
  refine Quiet.bind (quiet_targetKind payload) fun kind => ?_
  refine Quiet.bind (quiet_optionalTuid payload "target_type") fun schemaRef => ?_
  refine Quiet.bind (quiet_policyRole payload) fun role => ?_
  refine Quiet.bind (quiet_optionalTuid payload "subject_id") fun subjectId => ?_
  refine Quiet.bind quiet_generate fun id => ?_
  refine keeps_newHeader fun placeholder => ?_
  refine keeps_bind Session.Adds.trans (keeps_record rfl (.save ?_ entitled)) fun _ => (quiet_pure _).keeps
  rw [path]
  exact List.mem_of_getElem? (i := 2) rfl

theorem seed_kinds {generated : Nat → Tuid} {adminName : String} {entity : SeedEntity}
    (mem : entity ∈ (bootstrap generated adminName).entities) :
    entity.header.entityKind ∈ [EntityKind.role, .policy, .subject] := by
  simp only [bootstrap, List.mem_cons, List.not_mem_nil, or_false] at mem
  rcases mem with rfl | rfl | rfl | rfl | rfl | rfl | rfl <;> simp [EntityHeader.new]

theorem keeps_jsonBody {B : Type} {f : Json.Value → WriteResult B}
    (rest : ∀ payload, (∃ text, fromUtf8 req.body = some text ∧ Json.parse text = .ok payload) →
      Keeps (Session.Adds P) (f payload)) : Keeps (Session.Adds P) (jsonBody req >>= f) := by
  rw [jsonBody]
  split
  next => exact keeps_raise_bind Session.adds_refl _ f
  next text decoded =>
    split
    next payload parsed => exact rest payload ⟨text, decoded, parsed⟩
    next => exact keeps_raise_bind Session.adds_refl _ f

theorem keeps_orRefuse {A B : Type} {code : Nat} {text : String} {found : Option A} {f : A → WriteResult B}
    (rest : ∀ a, found = some a → Keeps (Session.Adds P) (f a)) :
    Keeps (Session.Adds P) (orRefuse code text found >>= f) := by
  cases found with
  | none => exact keeps_raise_bind Session.adds_refl _ f
  | some a => exact rest a rfl

theorem keeps_seedFrom {B : Type} {adminName : String} {f : Bootstrap → WriteResult B}
    (rest : ∀ generated, Keeps (Session.Adds P) (f (bootstrap generated adminName))) :
    Keeps (Session.Adds P) (seedFrom adminName >>= f) := by
  rw [seedFrom, bind_assoc]
  refine keeps_bind Session.Adds.trans (keeps_view Session.adds_refl) fun s => ?_
  rw [bind_assoc]
  refine keeps_bind Session.Adds.trans (keeps_update fun _ => Session.adds_refl _) fun _ => ?_
  rw [pure_bind]
  exact rest s.fresh

theorem setup_mandated (reached : host.Reached) (path : req.path = "/api/setup") :
    Keeps (Session.Adds (Mandated host req client)) (setup host client req) := by
  rw [setup]
  split
  next => exact (quiet_raise _).keeps
  next secret enforced =>
    refine keeps_jsonBody fun payload parsed => keeps_orRefuse fun told here => ?_
    split
    next => exact (quiet_raise _).keeps
    next knows =>
      refine keeps_reads fun store opened => keeps_reads fun taken looked => ?_
      obtain ⟨dir, named, opened⟩ := Answer.bind_eq_pure opened
      have opened := Answer.ofStore_eq_pure.mp opened
      split
      next => exact (quiet_raise _).keeps
      next free =>
        obtain rfl : taken = none := by simpa using free
        have settingUp : SettingUp host req := ⟨secret, payload, told, store, enforced, parsed, here,
          not_not.mp knows, ⟨dir, Answer.required_eq_pure.mp named, opened⟩, roleIdByName_none reached opened looked⟩
        refine keeps_seedFrom fun generated => ?_
        refine keeps_bind Session.Adds.trans ?_ fun _ => (quiet_pure _).keeps
        exact keeps_forM Session.adds_refl Session.Adds.trans fun seed mem =>
          keeps_record rfl (.setup path settingUp (seed_kinds mem))

theorem respondJson_mandated {result : WriteResult Json.Value} (keeps : Keeps (Session.Adds P) result) :
    Keeps (Session.Adds P) (respondJson result) :=
  keeps_bind Session.Adds.trans (keeps_attempt keeps) fun _ => (quiet_pure _).keeps

theorem writeRoute_mandated (enforced : host.auth = .enforced secret) (reached : host.Reached)
    {result : WriteResult Json.Value} (routed : writeRoute host req client = some result) :
    Keeps (Session.Adds (Mandated host req client)) result := by
  rw [writeRoute] at routed
  split_ifs at routed
  next path =>
    obtain rfl := Option.some.inj routed
    exact saveEntity_mandated enforced reached path
  next path =>
    obtain rfl := Option.some.inj routed
    exact deleteBy_mandated enforced reached fun entitled _ => .deleteEntity path entitled
  next path =>
    obtain rfl := Option.some.inj routed
    refine saveNamed_mandated enforced reached fun entitled header kind => .save ?_ entitled
    rw [path, kind]
    exact List.mem_of_getElem? (i := 0) rfl
  next path =>
    obtain rfl := Option.some.inj routed
    refine deleteBy_mandated enforced reached fun entitled _ => .delete ?_ entitled
    rw [path]
    exact List.mem_of_getElem? (i := 0) rfl
  next path =>
    obtain rfl := Option.some.inj routed
    refine saveNamed_mandated enforced reached fun entitled header kind => .save ?_ entitled
    rw [path, kind]
    exact List.mem_of_getElem? (i := 1) rfl
  next =>
    obtain rfl := Option.some.inj routed
    exact quiet_issueToken.keeps
  next path =>
    obtain rfl := Option.some.inj routed
    exact savePolicy_mandated enforced reached path
  next path =>
    obtain rfl := Option.some.inj routed
    refine deleteBy_mandated enforced reached fun entitled _ => .delete ?_ entitled
    rw [path]
    exact List.mem_of_getElem? (i := 1) rfl

theorem route_mandated (enforced : host.auth = .enforced secret) (reached : host.Reached) :
    Keeps (Session.Adds fun message => req.method = "POST" ∧ Mandated host req client message)
      (route host req (some client)) := by
  rw [route]
  split
  next =>
    split
    next => exact (quiet_pure _).keeps
    next =>
      split
      next => exact respondJson_mandated (quiet_reads _).keeps
      next => exact (quiet_pure _).keeps
  next =>
    split
    next post =>
      have posted {m : WriteResult Response} (keeps : Keeps (Session.Adds (Mandated host req client)) m) :
          Keeps (Session.Adds fun message => req.method = "POST" ∧ Mandated host req client message) m :=
        fun s => (keeps s).imp fun _ mandated => ⟨post, mandated⟩
      split
      next path => exact posted (respondJson_mandated (setup_mandated reached path))
      next =>
        split
        next result routed => exact posted (respondJson_mandated (writeRoute_mandated enforced reached routed))
        next => exact (quiet_pure _).keeps
    next => exact (quiet_pure _).keeps

/-- Whatever requests arrive, in whatever order and whatever the members of the cluster answer, no record is sent but
one that its request may have written, and each to the shard of its entity. -/
theorem writes_mediated (arrivals : List Arrival)
    (enforced : ∀ arrival ∈ arrivals, ∃ secret, arrival.host.auth = .enforced secret)
    (reached : ∀ arrival ∈ arrivals, arrival.host.Reached) (s : Session) :
    ∀ message ∈ (serve (some client) arrivals s).sent, message ∈ s.sent ∨ ∃ arrival ∈ arrivals,
      arrival.req.method = "POST" ∧ Mandated arrival.host arrival.req client message := by
  induction arrivals generalizing s with
  | nil => exact fun message mem => .inl mem
  | cons arrival rest ih =>
    intro message mem
    have later := ih (fun other mem => enforced other (List.mem_cons_of_mem arrival mem))
      (fun other mem => reached other (List.mem_cons_of_mem arrival mem)) _ message mem
    rcases later with before | ⟨other, inside, granted⟩
    · obtain ⟨secret, set⟩ := enforced arrival List.mem_cons_self
      have mandated : Keeps (Session.Adds fun message => arrival.req.method = "POST" ∧
          Mandated arrival.host arrival.req client message) (route arrival.host arrival.req (some client)) :=
        route_mandated set (reached arrival List.mem_cons_self)
      obtain ⟨new, sent, all⟩ := mandated s
      rw [sent] at before
      rcases List.mem_append.mp before with old | added
      · exact .inl old
      · exact .inr ⟨arrival, List.mem_cons_self, all message added⟩
    · exact .inr ⟨other, List.mem_cons_of_mem arrival inside, granted⟩

end Handlers

section Instance

def setupRequest : HttpRequest where
  query := [("store_dir", "data")]
  headers := []
  method := "POST"
  path := "/api/setup"
  body := utf8 "\x7b\"setup_secret\": \"\\u0001\"\x7d"

theorem writes_mediated_setup : ∃ left, (typeHost left).Reached ∧
    ∀ message ∈ (serve (some oneShard) [⟨typeHost left, setupRequest⟩] accepting).sent,
      message ∈ accepting.sent ∨ ∃ arrival ∈ [(⟨typeHost left, setupRequest⟩ : Arrival)],
        arrival.req.method = "POST" ∧ Mandated arrival.host arrival.req oneShard message := by
  obtain ⟨left, -, -, -, -, reach, level, -⟩ := type_stored
  have reached := typeHost_reached reach level
  have only {arrival : Arrival} (mem : arrival ∈ [(⟨typeHost left, setupRequest⟩ : Arrival)]) :
      arrival.host = typeHost left := by
    rw [List.mem_singleton.mp mem]
  refine ⟨left, reached, writes_mediated _ (fun arrival mem => ⟨[1], ?_⟩) (fun arrival mem => ?_) accepting⟩
  · rw [only mem]
    rfl
  · rw [only mem]
    exact reached

end Instance

end Gems.Frontend.Webui
