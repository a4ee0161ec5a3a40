import Gems.Engine.Seeded
import Gems.Frontend.Granted

set_option autoImplicit false

namespace Gems.Frontend.Webui

open Lib Acting Catalog Codec Storage Engine Abac Cluster

variable {host : Host} {req : HttpRequest} {client : ShardedClient} {store : Store} {subject : SubjectContext}
  {value : Json.Value} {s s' : Session} {secret : List UInt8} {token : String}

section Statement

def Carries (value : Json.Value) (token : String) : Prop :=
  value.get "token" = some (.string token) ∨ value.get "admin_token" = some (.string token)

/-- The request asks for a token of this subject and may have it. -/
inductive Minted (host : Host) (req : HttpRequest) (s : Session) : SubjectContext → Prop where
  | issued {subject : SubjectContext} {payload : Json.Value} {store : Store} {names : List String}
      (path : req.path = "/api/subjects/issue-token") (entitled : Entitled host req [adminRoleName])
      (parsed : ∃ text, fromUtf8 req.body = some text ∧ Json.parse text = .ok payload)
      (named : ∃ hex, strField payload "subject_id" = some hex ∧ Tuid.fromHexStr hex = .ok (some subject.subjectId))
      (opened : ∃ dir, req.queryParam "store_dir" = some dir ∧ host.openStore dir = .ok store)
      (asked : payload.get "role_names" = some (.array (names.map .string)))
      (roles : List.Forall₂ (fun name role => ∃ e, store.get host.fuel role = .ok (some e) ∧
        e.1.entityKind = .role ∧ e.1.name = name) names subject.roles) : Minted host req s subject
  | setup (path : req.path = "/api/setup") (settingUp : SettingUp host req) :
      Minted host req s { subjectId := s.fresh 3, roles := [s.fresh 0] }

end Statement

section Plain

def Plain (value : Json.Value) : Prop := value.get "token" = none ∧ value.get "admin_token" = none

theorem Plain.not_carries (plain : Plain value) : ¬ Carries value token := by
  rintro (here | here)
  · cases plain.1.symm.trans here
  · cases plain.2.symm.trans here

theorem plain_summaries (entities : List Entity) : Plain (summaries entities) := ⟨rfl, rfl⟩

theorem plain_entityObject (header : EntityHeader) (body : List UInt8) : Plain (entityObject header body) := by
  rw [entityObject]
  split
  · split
    · exact ⟨rfl, rfl⟩
    · exact ⟨rfl, rfl⟩
  · exact ⟨rfl, rfl⟩

theorem plain_idObject (id : Tuid) : Plain (idObject id) := ⟨rfl, rfl⟩

variable {failed : Message → Nat × Message} {fuel : Nat} {caller : Option SubjectContext}

theorem plain_listByKind {kind : EntityKind} (made : listByKind failed fuel store caller kind = pure value) :
    Plain value := by
  obtain ⟨ids, -, made⟩ := Answer.bind_eq_pure made
  obtain ⟨found, -, made⟩ := Answer.bind_eq_pure made
  obtain rfl := Answer.pure_inj made
  exact plain_summaries _

theorem plain_runQuery {query : Gems.Query} (made : runQuery failed fuel store caller query = pure value) :
    Plain value := by
  cases caller with
  | some subject =>
    obtain ⟨entities, -, made⟩ := Answer.bind_eq_pure made
    obtain rfl := Answer.pure_inj made
    exact plain_summaries _
  | none =>
    obtain ⟨ids, -, made⟩ := Answer.bind_eq_pure made
    obtain ⟨found, -, made⟩ := Answer.bind_eq_pure made
    obtain rfl := Answer.pure_inj made
    exact plain_summaries _

theorem plain_readEntity {missing : Nat × Message} {id : Tuid}
    (made : readEntity failed fuel store caller missing id = pure value) : Plain value := by
  obtain ⟨found, -, made⟩ := Answer.bind_eq_pure made
  obtain ⟨e, -, made⟩ := Answer.bind_eq_pure made
  obtain rfl := Answer.pure_inj made
  exact plain_entityObject _ _

theorem plain_readRoute {answer : ApiResult Json.Value} (routed : readRoute host req = some answer)
    (made : answer = pure value) : Plain value := by
  subst made
  rw [readRoute] at routed
  have listing {kind : EntityKind} (made : listByKindEnforced host req.toRequest kind = pure value) : Plain value := by
    obtain ⟨caller, -, made⟩ := Answer.bind_eq_pure made
    obtain ⟨store, -, made⟩ := Answer.bind_eq_pure made
    exact plain_listByKind made
  split_ifs at routed
  next =>
    obtain ⟨caller, -, made⟩ := Answer.bind_eq_pure (Option.some.inj routed)
    obtain ⟨store, -, made⟩ := Answer.bind_eq_pure made
    exact plain_listByKind made
  next =>
    obtain ⟨caller, -, made⟩ := Answer.bind_eq_pure (Option.some.inj routed)
    obtain ⟨store, -, made⟩ := Answer.bind_eq_pure made
    obtain ⟨queryStr, -, made⟩ := Answer.bind_eq_pure made
    obtain ⟨parsed, -, made⟩ := Answer.bind_eq_pure made
    exact plain_runQuery made
  next =>
    obtain ⟨caller, -, made⟩ := Answer.bind_eq_pure (Option.some.inj routed)
    obtain ⟨store, -, made⟩ := Answer.bind_eq_pure made
    obtain ⟨idHex, -, made⟩ := Answer.bind_eq_pure made
    obtain ⟨found, -, made⟩ := Answer.bind_eq_pure made
    obtain ⟨id, -, made⟩ := Answer.bind_eq_pure made
    exact plain_readEntity made
  next => exact listing (Option.some.inj routed)
  next => exact listing (Option.some.inj routed)
  next => exact listing (Option.some.inj routed)

theorem plain_saveEntity : Gives (saveEntity host client req) Plain :=
  gives_after fun _ => gives_after fun _ => gives_after fun _ => gives_after fun _ => gives_after fun _ =>
    gives_after fun id => gives_after fun _ => gives_after fun _ => gives_pure (plain_idObject id)

theorem plain_deleteBy {names : List String} : Gives (deleteBy host client req names) Plain :=
  gives_after fun _ => gives_after fun _ => gives_after fun _ => gives_after fun _ => gives_pure ⟨rfl, rfl⟩

theorem plain_saveNamed {kind : EntityKind} {body : List UInt8} :
    Gives (saveNamed host client req kind body) Plain :=
  gives_after fun _ => gives_after fun _ => gives_after fun _ => gives_after fun id => gives_after fun _ =>
    gives_after fun _ => gives_pure (plain_idObject id)

theorem plain_savePolicy : Gives (savePolicy host client req) Plain :=
  gives_after fun _ => gives_after fun _ => gives_after fun _ => gives_after fun _ => gives_after fun _ =>
    gives_after fun _ => gives_after fun _ => gives_after fun _ => gives_after fun id => gives_after fun _ =>
      gives_after fun _ => gives_pure (plain_idObject id)

end Plain

section Returned

variable {A : Type} {a : A} {answer : ApiResult A} {code : Nat} {text key hex : String} {found : Option A}
  {payload : Json.Value} {id : Tuid}

theorem returns_reads : Returns (reads answer) s a s' ↔ answer = pure a ∧ s = s' := by
  rw [reads, returns_reading]
  refine and_congr_left fun _ => ?_
  cases answer with
  | error fault => exact iff_of_false (fun made => by cases made) fun made => by cases made
  | ok result =>
    cases result with
    | error e => exact iff_of_false (fun made => by cases made) fun made => by cases made
    | ok a' =>
      constructor
      · intro made
        obtain rfl : a' = a := Answer.pure_inj (E := WriteError) made
        rfl
      · intro made
        obtain rfl : a' = a := Answer.pure_inj made
        rfl

theorem returns_orRefuse : Returns (orRefuse code text found) s a s' ↔ found = some a ∧ s = s' := by
  cases found with
  | none => exact iff_of_false (fun made => by cases made) fun made => by cases made.1
  | some a' => exact returns_pure.trans (by rw [Option.some.injEq])

theorem returns_jsonBody : Returns (jsonBody req) s payload s' ↔
    (∃ text, fromUtf8 req.body = some text ∧ Json.parse text = .ok payload) ∧ s = s' := by
  rw [jsonBody]
  cases decoded : fromUtf8 req.body with
  | none =>
    refine iff_of_false (fun made => by cases made) ?_
    rintro ⟨⟨_, made, _⟩, -⟩
    cases made
  | some text =>
    dsimp only
    cases parsed : Json.parse text with
    | error e =>
      refine iff_of_false (fun made => by cases made) ?_
      rintro ⟨⟨other, same, made⟩, -⟩
      obtain rfl := Option.some.inj same
      cases parsed.symm.trans made
    | ok value =>
      refine returns_pure.trans (and_congr_left fun _ => ?_)
      constructor
      · rintro rfl
        exact ⟨text, rfl, parsed⟩
      · rintro ⟨other, same, made⟩
        obtain rfl := Option.some.inj same
        exact Except.ok.inj (parsed.symm.trans made)

theorem returns_tuidField : Returns (tuidField key hex) s id s' ↔ Tuid.fromHexStr hex = .ok (some id) ∧ s = s' := by
  rw [tuidField, returns_bind]
  constructor
  · rintro ⟨found, t, read, given⟩
    obtain ⟨made, rfl⟩ := returns_reading.mp read
    obtain ⟨rfl, rfl⟩ := returns_orRefuse.mp given
    cases here : Tuid.fromHexStr hex with
    | error fault =>
      rw [here] at made
      cases made
    | ok other =>
      rw [here] at made
      obtain rfl : other = some id := Answer.pure_inj (E := WriteError) made
      exact ⟨rfl, rfl⟩
  · rintro ⟨made, rfl⟩
    refine ⟨some id, s, returns_reading.mpr ⟨?_, rfl⟩, returns_orRefuse.mpr ⟨rfl, rfl⟩⟩
    rw [made]
    rfl

theorem returns_requiredTuid : Returns (requiredTuid payload key) s id s' ↔
    (∃ hex, strField payload key = some hex ∧ Tuid.fromHexStr hex = .ok (some id)) ∧ s = s' := by
  rw [requiredTuid, returns_bind]
  constructor
  · rintro ⟨hex, t, given, read⟩
    obtain ⟨here, rfl⟩ := returns_orRefuse.mp given
    obtain ⟨made, rfl⟩ := returns_tuidField.mp read
    exact ⟨⟨hex, here, made⟩, rfl⟩
  · rintro ⟨⟨hex, here, made⟩, rfl⟩
    exact ⟨hex, s, returns_orRefuse.mpr ⟨here, rfl⟩, returns_tuidField.mpr ⟨made, rfl⟩⟩

end Returned

section Minting

theorem admission_opened {names : List String} (admitted : admission host req.toRequest names = pure store) :
    ∃ dir, req.queryParam "store_dir" = some dir ∧ host.openStore dir = .ok store := by
  obtain ⟨caller, -, admitted⟩ := Answer.bind_eq_pure admitted
  obtain ⟨store', opened, admitted⟩ := Answer.bind_eq_pure admitted
  obtain ⟨_, -, made⟩ := Answer.bind_eq_pure admitted
  obtain rfl := Answer.pure_inj made
  obtain ⟨dir, named, opened⟩ := Answer.bind_eq_pure opened
  exact ⟨dir, Answer.required_eq_pure.mp named, Answer.ofStore_eq_pure.mp opened⟩

theorem namedRoles_named (reached : host.Reached) {dir : String} (opened : host.openStore dir = .ok store)
    {given : List Json.Value} {roles : List Tuid} (made : Returns (namedRoles host store given) s roles s') :
    s = s' ∧ ∃ names : List String, given = names.map .string ∧
      List.Forall₂ (fun name role => ∃ e, store.get host.fuel role = .ok (some e) ∧ e.1.entityKind = .role ∧
        e.1.name = name) names roles := by
  induction given generalizing roles s s' with
  | nil =>
    obtain ⟨rfl, rfl⟩ := returns_pure.mp made
    exact ⟨rfl, [], rfl, .nil⟩
  | cons first rest ih =>
    obtain ⟨name, t, given, made⟩ := returns_bind.mp made
    obtain ⟨text, rfl⟩ := returns_orRefuse.mp given
    obtain ⟨role, t, given, made⟩ := returns_bind.mp made
    obtain ⟨found, t', looked, given⟩ := returns_bind.mp given
    obtain ⟨searched, rfl⟩ := returns_reads.mp looked
    obtain ⟨rfl, rfl⟩ := returns_orRefuse.mp given
    obtain ⟨later, t, made', last⟩ := returns_bind.mp made
    obtain ⟨rfl, names, rfl, all⟩ := ih made'
    obtain ⟨rfl, rfl⟩ := returns_pure.mp last
    obtain rfl : first = .string name := by
      cases first with
      | string other => exact congrArg Json.Value.string (Option.some.inj text)
      | _ => cases text
    exact ⟨rfl, name :: names, rfl, .cons (roleIdByName_some reached opened searched) all⟩

theorem issueToken_minted (enforced : host.auth = .enforced secret) (reached : host.Reached)
    (path : req.path = "/api/subjects/issue-token") (made : Returns (issueToken host req) s value s') :
    ∃ subject, value = tokenObject "token" (Token.issue secret subject none) ∧ Minted host req s subject := by
  obtain ⟨store, t, looked, made⟩ := returns_bind.mp made
  obtain ⟨admitted, rfl⟩ := returns_reads.mp looked
  rw [enforced] at made
  obtain ⟨payload, t, body, made⟩ := returns_bind.mp made
  obtain ⟨parsed, rfl⟩ := returns_jsonBody.mp body
  obtain ⟨subjectId, t, given, made⟩ := returns_bind.mp made
  obtain ⟨named, rfl⟩ := returns_requiredTuid.mp given
  obtain ⟨roleNames, t, given, made⟩ := returns_bind.mp made
  obtain ⟨asked, rfl⟩ := returns_orRefuse.mp given
  obtain ⟨roles, t, given, last⟩ := returns_bind.mp made
  have opened := admission_opened admitted
  obtain ⟨rfl, names, rfl, all⟩ := namedRoles_named reached opened.choose_spec.2 given
  obtain ⟨rfl, -⟩ := returns_pure.mp last
  refine ⟨{ subjectId, roles }, rfl, .issued path (admit_entitled enforced reached admitted) parsed named opened ?_ all⟩
  obtain ⟨v, here, array⟩ := Option.bind_eq_some_iff.mp asked
  cases v with
  | array items =>
    obtain rfl := Option.some.inj array
    exact here
  | _ => cases array

theorem setup_minted (enforced : host.auth = .enforced secret) (reached : host.Reached)
    (path : req.path = "/api/setup") (made : Returns (setup host client req) s value s') :
    ∃ subject, value = tokenObject "admin_token" (Token.issue secret subject none) ∧ Minted host req s subject := by
  rw [setup, enforced] at made
  obtain ⟨payload, t, body, made⟩ := returns_bind.mp made
  obtain ⟨parsed, rfl⟩ := returns_jsonBody.mp body
  obtain ⟨told, t, given, made⟩ := returns_bind.mp made
  obtain ⟨here, rfl⟩ := returns_orRefuse.mp given
  split at made
  next => cases made
  next knows =>
    obtain ⟨store, t, looked, made⟩ := returns_bind.mp made
    obtain ⟨opened, rfl⟩ := returns_reads.mp looked
    obtain ⟨taken, t, looked', made⟩ := returns_bind.mp made
    obtain ⟨searched, rfl⟩ := returns_reads.mp looked'
    obtain ⟨dir, named, opened⟩ := Answer.bind_eq_pure opened
    have opened := Answer.ofStore_eq_pure.mp opened
    split at made
    next => cases made
    next free =>
      obtain rfl : taken = none := by simpa using free
      have settingUp : SettingUp host req := ⟨secret, payload, told, store, enforced, parsed, here, not_not.mp knows,
        ⟨dir, Answer.required_eq_pure.mp named, opened⟩, roleIdByName_none reached opened searched⟩
      obtain ⟨seed, t, seeded, made⟩ := returns_bind.mp made
      obtain ⟨done, t', written, made⟩ := returns_bind.mp made
      obtain ⟨rfl, -⟩ := returns_pure.mp made
      obtain ⟨before, t'', viewed, seeded⟩ := returns_bind.mp seeded
      cases viewed
      obtain ⟨drawn, t'', updated, seeded⟩ := returns_bind.mp seeded
      obtain ⟨rfl, -⟩ := returns_pure.mp seeded
      exact ⟨_, rfl, .setup path settingUp⟩

theorem respondJson_ok {m : WriteResult Json.Value} {code : Nat}
    (made : Returns (respondJson m) s (.json code (.ok value)) s') : Returns m s value s' := by
  obtain ⟨result, t, ran, made⟩ := returns_bind.mp made
  obtain ⟨same, rfl⟩ := returns_pure.mp made
  obtain ⟨-, rfl⟩ := Response.json.inj same
  exact returns_attempt.mp ran

theorem carries_tokenObject {key other : String} (known : key = "token" ∨ key = "admin_token")
    (carries : Carries (tokenObject key other) token) : token = other := by
  rcases known with rfl | rfl
  · rcases carries with here | here
    · exact (Json.Value.string.inj (Option.some.inj here)).symm
    · cases here
  · rcases carries with here | here
    · cases here
    · exact (Json.Value.string.inj (Option.some.inj here)).symm

theorem writeRoute_minted (enforced : host.auth = .enforced secret) (reached : host.Reached)
    {result : WriteResult Json.Value} (routed : writeRoute host req client = some result)
    (made : Returns result s value s') (carries : Carries value token) :
    ∃ subject, token = Token.issue secret subject none ∧ Minted host req s subject := by
  rw [writeRoute] at routed
  split_ifs at routed
  next =>
    obtain rfl := Option.some.inj routed
    exact absurd carries (plain_saveEntity s value s' made).not_carries
  next =>
    obtain rfl := Option.some.inj routed
    exact absurd carries (plain_deleteBy s value s' made).not_carries
  next =>
    obtain rfl := Option.some.inj routed
    exact absurd carries (plain_saveNamed s value s' made).not_carries
  next =>
    obtain rfl := Option.some.inj routed
    exact absurd carries (plain_deleteBy s value s' made).not_carries
  next =>
    obtain rfl := Option.some.inj routed
    exact absurd carries (plain_saveNamed s value s' made).not_carries
  next path =>
    obtain rfl := Option.some.inj routed
    obtain ⟨subject, rfl, minted⟩ := issueToken_minted enforced reached path made
    exact ⟨subject, carries_tokenObject (.inl rfl) carries, minted⟩
  next =>
    obtain rfl := Option.some.inj routed
    exact absurd carries (plain_savePolicy s value s' made).not_carries
  next =>
    obtain rfl := Option.some.inj routed
    exact absurd carries (plain_deleteBy s value s' made).not_carries

/-- Whatever is asked for, and whatever the cluster answers: a token is handed out only to whom it may be, and it
stands, at any time, for exactly the subject and the roles that were asked for. -/
theorem tokens_mediated (enforced : host.auth = .enforced secret) (reached : host.Reached)
    {cluster : Option ShardedClient} {code : Nat}
    (answered : Returns (route host req cluster) s (.json code (.ok value)) s') (carries : Carries value token) :
    req.method = "POST" ∧ ∃ subject, Minted host req s subject ∧
      ∀ now, host.auth.authorize (some token) now = pure (some subject) := by
  have stands {subject : SubjectContext} (now : UInt64) :
      host.auth.authorize (some (Token.issue secret subject none)) now = pure (some subject) := by
    have verified : Token.verify secret (Token.issue secret subject none) now = pure subject :=
      Token.verify_issued none fun _ none => by cases none
    rw [enforced, AuthMode.authorize, verified]
    rfl
  unfold route at answered
  split at answered
  next =>
    split at answered
    next => cases (returns_pure.mp answered).1
    next =>
      split at answered
      next result routed =>
        obtain ⟨made, -⟩ := returns_reads.mp (respondJson_ok answered)
        exact absurd carries (plain_readRoute routed made).not_carries
      next => cases (returns_pure.mp answered).1
  next =>
    split at answered
    next post =>
      split at answered
      next => cases respondJson_ok answered
      next client =>
        split at answered
        next path =>
          obtain ⟨subject, rfl, minted⟩ := setup_minted enforced reached path (respondJson_ok answered)
          obtain rfl := carries_tokenObject (.inr rfl) carries
          exact ⟨post, subject, minted, stands⟩
        next =>
          split at answered
          next result routed =>
            obtain ⟨subject, rfl, minted⟩ := writeRoute_minted enforced reached routed (respondJson_ok answered) carries
            exact ⟨post, subject, minted, stands⟩
          next => cases (returns_pure.mp answered).1
    next => cases (returns_pure.mp answered).1

end Minting

section Instance

def Accepting (s : Session) : Prop := ∀ i, s.replies i = .answered clientStatusOk 1

theorem propose_accepted (accepting : Accepting s) (id : Tuid) (record : LogRecord) :
    ∃ s', Returns (oneShard.propose id record) s 1 s' ∧ Accepting s' := by
  have only : oneShard.shardOf id = .ok 0 := by
    have byte : ShardRouter.leadingByte id < 256 := UInt8.toNat_lt _
    have one : oneShard.router.numShards.toNat = 1 := rfl
    rw [ShardedClient.shardOf, ShardRouter.shardOf, one, Nat.mul_one, if_pos (by omega), Nat.div_eq_of_lt byte]
  have asked : Returns (proposeRemote home record) s 1 ((s.answer).send home record) := by
    refine returns_bind.mpr ⟨s, s, rfl, ?_⟩
    rw [accepting 0]
    rfl
  refine ⟨(s.answer).send home record, ?_, fun i => accepting (i + 1)⟩
  refine returns_bind.mpr ⟨0, s, ?_, ?_⟩
  · refine returns_reading.mpr ⟨?_, rfl⟩
    rw [show oneShard.router.shardOf id = .ok 0 from only]
    rfl
  · change Returns (ShardedClient.tryMembers record [(1, home)]) s 1 _
    exact returns_bind.mpr ⟨.ok 1, _, returns_attempt.mpr asked, rfl⟩

theorem proposals_accepted (accepting : Accepting s) (seeds : List SeedEntity) :
    ∃ s', Returns (seeds.forM fun seed => proposeInsert oneShard seed.header seed.body) s () s' ∧ Accepting s' := by
  induction seeds generalizing s with
  | nil => exact ⟨s, rfl, accepting⟩
  | cons seed rest ih =>
    obtain ⟨t, made, still⟩ := propose_accepted accepting seed.header.id (.insert seed.header seed.body)
    obtain ⟨s', later, done⟩ := ih still
    refine ⟨s', returns_bind.mpr ⟨(), t, ?_, later⟩, done⟩
    exact returns_bind.mpr ⟨1, t, returns_adapt.mpr made, rfl⟩

theorem setupRequest_body : ∃ payload, Returns (jsonBody setupRequest) s payload s ∧
    strField payload "setup_secret" = some "\x01" := by
  have read : (Json.parse "\x7b\"setup_secret\": \"\\u0001\"\x7d").toOption.bind (strField · "setup_secret") =
      some "\x01" := by decide
  obtain ⟨payload, parsed, told⟩ := Option.bind_eq_some_iff.mp read
  refine ⟨payload, returns_jsonBody.mpr ⟨⟨_, fromUtf8_utf8 _, ?_⟩, rfl⟩, told⟩
  cases made : Json.parse "\x7b\"setup_secret\": \"\\u0001\"\x7d" with
  | error e =>
    rw [made] at parsed
    cases parsed
  | ok value =>
    rw [made] at parsed
    exact congrArg Except.ok (Option.some.inj parsed)

theorem typeHost_roles : ∃ left store, (typeHost left).Reached ∧ (typeHost left).openStore "data" = .ok store ∧
    roleIdByName (typeHost left) store adminRoleName = pure none := by
  obtain ⟨left, slots, ords, ids, depth, reach, level, shallow, rested⟩ := type_stored
  have flat : left.data.extents.length * stride fourKiB / extentSize = left.data.extents.length := by
    rw [← rested.linked.sound.data.held.mapped]
    exact level
  obtain ⟨store, opened, reopened⟩ := rested.linked.sound.onDisk.openDir (Set.Subset.refl _) flat shallow
  have rested := reopened.rested rested
  obtain ⟨list, listed, -, names⟩ := rested.linked.queryByKind shallow rested.filed.byKind .role
  have none : list = [] := by
    refine List.eq_nil_iff_forall_not_mem.mpr fun id mem => ?_
    obtain ⟨e, known, kind⟩ := (names id).mp mem
    obtain ⟨before, here, rfl⟩ := Option.map_eq_some_iff.mp known
    rcases contents_from here with none | ⟨inside, -⟩
    · cases none
    · obtain ⟨header, -⟩ := Call.insert.inj (List.mem_singleton.mp inside)
      have kind : before.1.entityKind = .role := kind
      rw [header] at kind
      cases kind
  refine ⟨left, store, typeHost_reached reach level, opened, ?_⟩
  rw [roleIdByName, Answer.ofStore_eq_pure.mpr
    (show store.queryByKind (typeHost left).fuel .role = .ok list from listed),
    pure_bind, none]
  rfl

theorem tokens_mediated_setup : ∃ left value s' token, (typeHost left).Reached ∧
    Returns (route (typeHost left) setupRequest (some oneShard)) accepting (.json 200 (.ok value)) s' ∧
    Carries value token ∧ ∃ subject, Minted (typeHost left) setupRequest accepting subject ∧
      ∀ now, (typeHost left).auth.authorize (some token) now = pure (some subject) := by
  obtain ⟨left, store, reached, opened, free⟩ := typeHost_roles
  obtain ⟨payload, body, told⟩ := setupRequest_body (s := accepting)
  let seed := bootstrap accepting.fresh ((strField payload "admin_name").getD "admin")
  obtain ⟨s', written, -⟩ := proposals_accepted (s := accepting) (fun _ => rfl) seed.entities
  have knows : ¬ utf8 "\x01" ≠ [1] := by decide
  have opens : Returns (reads (openStore (typeHost left) setupRequest.toRequest)) accepting store accepting := by
    refine returns_reads.mpr ⟨?_, rfl⟩
    rw [openStore, show setupRequest.queryParam "store_dir" = some "data" from rfl]
    exact Answer.ofStore_eq_pure.mpr opened
  have ran : Returns (setup (typeHost left) oneShard setupRequest) accepting
      (tokenObject "admin_token" (Token.issue [1]
        { subjectId := seed.adminSubjectId, roles := [seed.adminRoleId] } none))
      s' := by
    refine returns_bind.mpr ⟨payload, accepting, body, ?_⟩
    refine returns_bind.mpr ⟨_, accepting, returns_orRefuse.mpr ⟨told, rfl⟩, ?_⟩
    rw [if_neg knows]
    refine returns_bind.mpr ⟨store, accepting, opens, ?_⟩
    refine returns_bind.mpr ⟨none, accepting, returns_reads.mpr ⟨free, rfl⟩, ?_⟩
    refine returns_bind.mpr ⟨seed, accepting, rfl, ?_⟩
    exact returns_bind.mpr ⟨(), s', written, rfl⟩
  have answered : Returns (route (typeHost left) setupRequest (some oneShard)) accepting (.json 200 (.ok _)) s' :=
    returns_bind.mpr ⟨.ok _, s', returns_attempt.mpr ran, rfl⟩
  have carries (token : String) : Carries (tokenObject "admin_token" token) token := .inr rfl
  exact ⟨left, _, s', _, reached, answered, carries _, (tokens_mediated rfl reached answered (carries _)).2⟩

end Instance

end Gems.Frontend.Webui
