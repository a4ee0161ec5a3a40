import Gems.Frontend.Tokens

set_option autoImplicit false

namespace Gems.Frontend.Webui

open Lib Acting Catalog Codec Storage Engine Abac Cluster

variable {host : Host} {req : HttpRequest} {client : ShardedClient} {value : Json.Value} {s s' : Session}
  {secret : List UInt8}

section Statement

def Submitted (client : ShardedClient) (s : Session) (record : LogRecord) : Prop :=
  ∃ addr, Routed client record.entityId addr ∧ (addr, record) ∈ s.sent

/-- The directory holds what the calls made of an empty store, the seeds among them. -/
structure Holding (host : Host) (dir : String) (b : Bootstrap) (calls : List Call) : Prop where
  small : host.os.size ≤ 16384
  distinct : (seedIds b).Nodup
  known : b.adminRoleId ≠ .nil
  seeded : Seeded b calls
  enough : calls.length ≤ host.fuel
  made : ∃ start given left, Store.create host.os = .ok start ∧ Within host.os host.fuel 1000 calls start ∧
    runCalls host.os host.fuel calls start = (.ok given, left) ∧ host.directories dir = some left

def AdminName (req : HttpRequest) (adminName : String) : Prop :=
  ∃ text payload, fromUtf8 req.body = some text ∧ Json.parse text = .ok payload ∧
    adminName = (strField payload "admin_name").getD "admin"

end Statement

section Submitting

theorem proposeRemote_submits {addr : SocketAddr} {command : LogRecord} {index : UInt64}
    (made : Returns (proposeRemote addr command) s index s') : (addr, command) ∈ s'.sent := by
  obtain ⟨before, t, viewed, made⟩ := returns_bind.mp made
  cases viewed
  obtain ⟨done, t, updated, made⟩ := returns_bind.mp made
  cases updated
  cases reply : s.replies 0 with
  | unreachable =>
    rw [reply] at made
    cases made
  | silent =>
    rw [reply] at made
    cases made
  | answered status index' =>
    rw [reply] at made
    obtain ⟨done, t, updated, made⟩ := returns_bind.mp made
    cases updated
    split at made
    next => cases made
    next =>
      obtain ⟨-, rfl⟩ := returns_pure.mp made
      exact List.mem_append_right _ List.mem_cons_self

theorem tryMembers_submits {command : LogRecord} {members : List (Raft.NodeId × SocketAddr)} {index : UInt64}
    (made : Returns (ShardedClient.tryMembers command members) s index s') :
    ∃ member ∈ members, (member.2, command) ∈ s'.sent := by
  induction members generalizing s with
  | nil => cases made
  | cons member rest ih =>
    obtain ⟨result, t, asked, made⟩ := returns_bind.mp made
    cases result with
    | ok index' =>
      obtain ⟨rfl, rfl⟩ := returns_pure.mp made
      exact ⟨member, List.mem_cons_self, proposeRemote_submits (returns_attempt.mp asked)⟩
    | error e =>
      obtain ⟨other, mem, sent⟩ := ih made
      exact ⟨other, List.mem_cons_of_mem member mem, sent⟩

theorem propose_submits {record : LogRecord} {index : UInt64}
    (made : Returns (client.propose record.entityId record) s index s') : Submitted client s' record := by
  obtain ⟨shard, t, routed, made⟩ := returns_bind.mp made
  obtain ⟨routed, rfl⟩ := returns_reading.mp routed
  have owner : client.shardOf record.entityId = .ok shard := by
    change client.router.shardOf record.entityId = .ok shard
    cases here : client.router.shardOf record.entityId with
    | error fault =>
      rw [here] at routed
      cases routed
    | ok other =>
      rw [here] at routed
      cases routed
      rfl
  dsimp only at made
  split at made
  next => cases made
  next =>
    obtain ⟨member, mem, sent⟩ := tryMembers_submits made
    exact ⟨member.2, ⟨shard, member.1, owner, mem⟩, sent⟩

theorem Submitted.later {record : LogRecord} {t : Session} {P : SocketAddr × LogRecord → Prop}
    (submitted : Submitted client s record) (adds : Session.Adds P s t) : Submitted client t record := by
  obtain ⟨addr, routed, sent⟩ := submitted
  obtain ⟨new, same, -⟩ := adds
  exact ⟨addr, routed, same ▸ List.mem_append_left new sent⟩

theorem proposeInsert_submits {header : EntityHeader} {body : List UInt8} {done : Unit}
    (made : Returns (proposeInsert client header body) s done s') : Submitted client s' (.insert header body) := by
  obtain ⟨index, t, asked, made⟩ := returns_bind.mp made
  obtain ⟨-, rfl⟩ := returns_pure.mp made
  exact propose_submits (returns_adapt.mp asked)

theorem seeds_submitted {seeds : List SeedEntity} {done : Unit}
    (made : Returns (seeds.forM fun seed => proposeInsert client seed.header seed.body) s done s') :
    ∀ seed ∈ seeds, Submitted client s' (.insert seed.header seed.body) := by
  induction seeds generalizing s with
  | nil => exact fun seed none => absurd none List.not_mem_nil
  | cons first rest ih =>
    obtain ⟨index, t, asked, after⟩ := returns_bind.mp made
    intro seed mem
    rcases List.mem_cons.mp mem with rfl | later
    · have grows : Keeps (Session.Adds fun _ => True)
          (rest.forM fun seed => proposeInsert client seed.header seed.body) :=
        keeps_forM Session.adds_refl Session.Adds.trans fun _ _ => keeps_proposeRecord fun _ _ => trivial
      have more := grows t
      rw [show (rest.forM fun seed => proposeInsert client seed.header seed.body).perform t = (.ok (.ok done), s')
        from after] at more
      exact (proposeInsert_submits asked).later more
    · exact ih after seed later

end Submitting

section Open

variable {later : Host} {dir adminName : String} {generated : Nat → Tuid} {calls : List Call} {store : Store}
  {subject : SubjectContext} {b : Bootstrap} {failed : Message → Nat × Message} {fuel : Nat}

theorem Holding.opened (holding : Holding later dir (bootstrap generated adminName) calls) :
    ∃ store, later.openStore dir = .ok store ∧
      ∀ subject, ShownWhole later.fuel (bootstrap generated adminName) subject store := by
  obtain ⟨start, given, left, created, few, made, here⟩ := holding.made
  obtain ⟨slots, ords, ids, depth, shallow, rested, level⟩ :=
    run_from_empty holding.small created holding.enough few made
  have flat : left.data.extents.length * stride later.os / extentSize = left.data.extents.length := by
    rw [← rested.linked.sound.data.held.mapped]
    exact level
  obtain ⟨store, opened, reopened⟩ := rested.linked.sound.onDisk.openDir (Set.Subset.refl _) flat shallow
  refine ⟨store, ?_, fun subject => holding.seeded.shownWhole holding.distinct holding.known (reopened.rested rested)
    shallow subject⟩
  rw [Host.openStore, here]
  exact opened

theorem shows_admin (admin : b.adminRoleId ∈ subject.roles) (e : Entity) : shows b subject e = true := by
  simp [shows, admin]

theorem Answer.mapM_ofStore {A : Type} {f : Tuid → Except Fault A} {ids : List Tuid} {found : List A}
    (made : ids.mapM f = .ok found) : (ids.mapM fun id => Answer.ofStore failed (f id)) = pure found := by
  induction ids generalizing found with
  | nil =>
    cases made
    rfl
  | cons id rest ih =>
    rw [List.mapM_cons] at made ⊢
    cases first : f id with
    | error fault =>
      rw [first] at made
      cases made
    | ok a =>
      rw [first] at made
      cases others : rest.mapM f with
      | error fault =>
        rw [others] at made
        cases made
      | ok as =>
        rw [others] at made
        cases made
        rw [ih others]
        rfl

theorem readOne_open (whole : ShownWhole fuel b subject store) (admin : b.adminRoleId ∈ subject.roles) (id : Tuid) :
    readOne failed fuel store (some subject) id = readOne failed fuel store none id := by
  obtain ⟨found, got, enforced⟩ := whole.get id
  rw [readOne, readOne, enforced, got]
  cases found with
  | none => rfl
  | some e => rw [Option.filter_some, if_pos (shows_admin admin e)]

theorem listByKind_open (whole : ShownWhole fuel b subject store) (admin : b.adminRoleId ∈ subject.roles)
    (kind : EntityKind) : listByKind failed fuel store (some subject) kind =
      listByKind failed fuel store none kind := by
  rw [listByKind, listByKind, funext (readOne_open whole admin)]

theorem readEntity_open (whole : ShownWhole fuel b subject store) (admin : b.adminRoleId ∈ subject.roles)
    (missing : Nat × Message) (id : Tuid) :
    readEntity failed fuel store (some subject) missing id = readEntity failed fuel store none missing id := by
  rw [readEntity, readEntity, readOne_open whole admin]

theorem runQuery_open (whole : ShownWhole fuel b subject store) (admin : b.adminRoleId ∈ subject.roles)
    (query : Gems.Query) : runQuery failed fuel store (some subject) query = runQuery failed fuel store none query := by
  rw [runQuery, runQuery]
  cases searched : store.query fuel query with
  | error fault =>
    have same : store.queryEnforced fuel query subject = .error fault := by
      rw [Store.queryEnforced, searched]
      rfl
    rw [same]
    cases fault <;> rfl
  | ok list =>
    obtain ⟨found, got, enforced⟩ := whole.query query list searched
    have each : (list.mapM fun id => readOne failed fuel store none id) = pure found := Answer.mapM_ofStore got
    have all : (found.filterMap fun e => e).filter (shows b subject) = found.filterMap fun e => e :=
      List.filter_eq_self.mpr fun e _ => shows_admin admin e
    rw [enforced, all, Answer.ofStore_eq_pure.mpr (rfl : Except.ok list = .ok list), pure_bind]
    change (Answer.ofStore failed (.ok _) >>= _) = (list.mapM fun id => readOne failed fuel store none id) >>= _
    rw [each]
    rfl

theorem readRoute_open {req' : HttpRequest} {store : Store}
    (verified : later.auth.authorize req'.bearerToken later.now = pure (some subject))
    (named : req'.queryParam "store_dir" = some dir) (opened : later.openStore dir = .ok store)
    (whole : ShownWhole later.fuel b subject store) (admin : b.adminRoleId ∈ subject.roles) :
    readRoute later req' = readRoute { later with auth := .insecure } req' := by
  have asked : authorize later req'.toRequest = pure (some subject) := authorize_eq verified
  have anyone : authorize { later with auth := .insecure } req'.toRequest = pure none := rfl
  have reading : openStore later req'.toRequest = pure store := openStore_eq ⟨dir, named, opened⟩
  have reading' : openStore { later with auth := .insecure } req'.toRequest = pure store :=
    openStore_eq ⟨dir, named, opened⟩
  rw [readRoute, readRoute, listTypes, listTypes, query, query, getEntity,
    getEntity, listSubjects, listSubjects, listRoles,
    listRoles, listPolicies, listPolicies, listByKindEnforced, listByKindEnforced, listByKindEnforced,
    listByKindEnforced, listByKindEnforced, listByKindEnforced]
  simp only [asked, anyone, reading, reading', pure_bind, runQuery_open whole admin, readEntity_open whole admin,
    listByKind_open whole admin]

end Open

section Answering

variable {later : Host} {req' : HttpRequest} {adminName dir token : String} {calls : List Call} {code : Nat}

theorem setup_answered (enforced : host.auth = .enforced secret) (asked : AdminName req adminName)
    (made : Returns (setup host client req) s value s') :
    value = tokenObject "admin_token" (Token.issue secret { subjectId := s.fresh 3, roles := [s.fresh 0] } none) ∧
      ∀ seed ∈ (bootstrap s.fresh adminName).entities, Submitted client s' (.insert seed.header seed.body) := by
  rw [setup, enforced] at made
  obtain ⟨payload, t, body, made⟩ := returns_bind.mp made
  obtain ⟨⟨text, decoded, parsed⟩, rfl⟩ := returns_jsonBody.mp body
  obtain ⟨told, t, given, made⟩ := returns_bind.mp made
  obtain ⟨-, rfl⟩ := returns_orRefuse.mp given
  obtain ⟨text', payload', decoded', parsed', rfl⟩ := asked
  obtain rfl : text = text' := Option.some.inj (decoded.symm.trans decoded')
  obtain rfl : payload = payload' := Except.ok.inj (parsed.symm.trans parsed')
  split at made
  next => cases made
  next =>
    obtain ⟨store, t, looked, made⟩ := returns_bind.mp made
    obtain ⟨-, rfl⟩ := returns_reads.mp looked
    obtain ⟨taken, t, looked', made⟩ := returns_bind.mp made
    obtain ⟨-, rfl⟩ := returns_reads.mp looked'
    split at made
    next => cases made
    next =>
      obtain ⟨seed, t, seeded, made⟩ := returns_bind.mp made
      obtain ⟨done, t', written, made⟩ := returns_bind.mp made
      obtain ⟨rfl, rfl⟩ := returns_pure.mp made
      obtain ⟨before, t'', viewed, seeded⟩ := returns_bind.mp seeded
      cases viewed
      obtain ⟨drawn, t'', updated, seeded⟩ := returns_bind.mp seeded
      obtain ⟨rfl, -⟩ := returns_pure.mp seeded
      exact ⟨rfl, seeds_submitted written⟩

theorem route_setup (path : req.path = "/api/setup")
    (answered : Returns (route host req (some client)) s (.json code (.ok value)) s') :
    Returns (setup host client req) s value s' := by
  unfold route at answered
  split at answered
  next =>
    split at answered
    next => cases (returns_pure.mp answered).1
    next =>
      have none : readRoute host req = none := by
        rw [readRoute, path]
        rfl
      rw [none] at answered
      cases (returns_pure.mp answered).1
  next =>
    split at answered
    next => exact respondJson_ok answered
    next => cases (returns_pure.mp answered).1

/-- What setup answers with: all seeds were sent to their shards, and wherever they are stored, among whatever else but
policies, each read with the token is answered as if the server asked for none. -/
theorem setup_admin_reads (enforced : host.auth = .enforced secret) (path : req.path = "/api/setup")
    (asked : AdminName req adminName)
    (answered : Returns (route host req (some client)) s (.json code (.ok value)) s') (carries : Carries value token)
    (same : later.auth = .enforced secret) (holding : Holding later dir (bootstrap s.fresh adminName) calls)
    (bearer : req'.bearerToken = some token) (named : req'.queryParam "store_dir" = some dir) :
    (∀ seed ∈ (bootstrap s.fresh adminName).entities, Submitted client s' (.insert seed.header seed.body)) ∧
      readRoute later req' = readRoute { later with auth := .insecure } req' := by
  obtain ⟨rfl, submitted⟩ := setup_answered enforced asked (route_setup path answered)
  obtain rfl := carries_tokenObject (.inr rfl) carries
  refine ⟨submitted, ?_⟩
  have verified : later.auth.authorize req'.bearerToken later.now =
      pure (some { subjectId := s.fresh 3, roles := [s.fresh 0] }) := by
    rw [bearer, same, AuthMode.authorize,
      show Token.verify secret (Token.issue secret _ none) later.now = pure _ from
        Token.verify_issued none fun _ none => by cases none]
    rfl
  obtain ⟨store, opened, whole⟩ := holding.opened
  exact readRoute_open verified named opened (whole _) List.mem_cons_self

end Answering

section Instance

def rootRequest : HttpRequest where
  query := [("store_dir", "data")]
  headers := []
  method := "POST"
  path := "/api/setup"
  body := utf8 "\x7b\"setup_secret\": \"\\u0001\", \"admin_name\": \"root\"\x7d"

-- The session that draws the ids of `rootSeeds`.
def counted : Session := { accepting with fresh := countedIds }

def rootHost (left : Store) : Host := { typeHost left with fuel := 7 }

def bearing (token : String) : HttpRequest where
  query := [("store_dir", "data"), ("q", "SELECT * FROM entities LIMIT 5")]
  headers := [("authorization", "Bearer " ++ token)]
  method := "GET"
  path := "/api/query"
  body := []

theorem bearing_token (token : String) : (bearing token).bearerToken = some token := by
  have named : eqIgnoreAsciiCase "authorization" "Authorization" = true := by decide
  refine Request.bearerToken_of_header ?_
  simp only [bearing, Request.header, List.find?_cons, named, Option.map_some]

theorem rootRequest_body : ∃ payload, Returns (jsonBody rootRequest) counted payload counted ∧
    strField payload "setup_secret" = some "\x01" ∧ AdminName rootRequest "root" := by
  have read : (Json.parse "\x7b\"setup_secret\": \"\\u0001\", \"admin_name\": \"root\"\x7d").toOption.map
      (fun payload => (strField payload "setup_secret", strField payload "admin_name")) =
        some (some "\x01", some "root") := by decide
  obtain ⟨payload, parsed, told⟩ := Option.map_eq_some_iff.mp read
  obtain ⟨secret, name⟩ := Prod.mk.inj told
  have whole : Json.parse "\x7b\"setup_secret\": \"\\u0001\", \"admin_name\": \"root\"\x7d" = .ok payload := by
    cases made : Json.parse "\x7b\"setup_secret\": \"\\u0001\", \"admin_name\": \"root\"\x7d" with
    | error e =>
      rw [made] at parsed
      cases parsed
    | ok value =>
      rw [made] at parsed
      exact congrArg Except.ok (Option.some.inj parsed)
  refine ⟨payload, returns_jsonBody.mpr ⟨⟨_, fromUtf8_utf8 _, whole⟩, rfl⟩,
    secret, _, payload, fromUtf8_utf8 _, whole, ?_⟩
  rw [name]
  rfl

theorem rootHost_holding : ∃ left, Holding (rootHost left) "data" rootSeeds seedCalls := by
  have small : fourKiB.size ≤ 16384 := show 4096 ≤ 16384 by omega
  obtain ⟨start, created, sound, none, -⟩ := create_sound fourKiB
  have sound : Sound fourKiB start (fun _ => Option.none) (fun _ => Option.none) (fun _ => Option.none)
      (shown fun _ => Option.none) 0 := sound
  obtain ⟨given, left, made⟩ := seedCalls_run created
  have count : seedCalls.length = 7 := rfl
  have few : Within fourKiB 7 1000 seedCalls start := within_of_short small sound (by omega) (by omega)
  exact ⟨left, small, by decide, by decide, seedCalls_seeded, count.le, start, given, left, created, few, made, rfl⟩

theorem setup_admin_reads_root : ∃ left left' value s' token,
    Returns (route (typeHost left) rootRequest (some oneShard)) counted (.json 200 (.ok value)) s' ∧
      Holding (rootHost left') "data" rootSeeds seedCalls ∧
      (∀ seed ∈ rootSeeds.entities, Submitted oneShard s' (.insert seed.header seed.body)) ∧
      readRoute (rootHost left') (bearing token) =
        readRoute { rootHost left' with auth := .insecure } (bearing token) := by
  obtain ⟨left, store, -, opened, free⟩ := typeHost_roles
  obtain ⟨left', holding⟩ := rootHost_holding
  obtain ⟨payload, body, told, name⟩ := rootRequest_body
  obtain ⟨text, payload', decoded, parsed, named⟩ := name
  obtain ⟨⟨text', decoded', parsed'⟩, -⟩ := returns_jsonBody.mp body
  obtain rfl : text = text' := Option.some.inj (decoded.symm.trans decoded')
  obtain rfl : payload' = payload := Except.ok.inj (parsed.symm.trans parsed')
  let drawn : Session := { counted with fresh := fun i => countedIds (i + bootstrapDraws) }
  obtain ⟨s', written, -⟩ := proposals_accepted (s := drawn) (fun _ => rfl) rootSeeds.entities
  have knows : ¬ utf8 "\x01" ≠ [1] := by decide
  have opens : Returns (reads (openStore (typeHost left) rootRequest.toRequest)) counted store counted :=
    returns_reads.mpr ⟨openStore_eq ⟨"data", rfl, opened⟩, rfl⟩
  have ran : Returns (setup (typeHost left) oneShard rootRequest) counted
      (tokenObject "admin_token" (Token.issue [1] { subjectId := countedIds 3, roles := [countedIds 0] } none)) s' := by
    refine returns_bind.mpr ⟨payload', counted, body, ?_⟩
    refine returns_bind.mpr ⟨_, counted, returns_orRefuse.mpr ⟨told, rfl⟩, ?_⟩
    rw [if_neg knows]
    refine returns_bind.mpr ⟨store, counted, opens, ?_⟩
    refine returns_bind.mpr ⟨none, counted, returns_reads.mpr ⟨free, rfl⟩, ?_⟩
    refine returns_bind.mpr ⟨rootSeeds, drawn, ?_, ?_⟩
    · rw [← named]
      rfl
    · exact returns_bind.mpr ⟨(), s', written, rfl⟩
  have answered : Returns (route (typeHost left) rootRequest (some oneShard)) counted (.json 200 (.ok _)) s' :=
    returns_bind.mpr ⟨.ok _, s', returns_attempt.mpr ran, rfl⟩
  have given := setup_admin_reads rfl rfl ⟨text, payload', decoded, parsed, named⟩ answered
    (.inr rfl) (rfl : (rootHost left').auth = .enforced [1]) holding (bearing_token _) rfl
  exact ⟨left, left', _, s', _, answered, holding, given.1, given.2⟩

end Instance

end Gems.Frontend.Webui
