import Gems.Catalog.Bootstrap
import Gems.Cluster.Shard
import Gems.Frontend.Http

set_option autoImplicit false

namespace Gems.Frontend.Webui

open Lib Acting Catalog Codec Engine Abac Cluster

/-- What a failed write says: what a read says, or a text with the Debug form of a value behind it. -/
inductive WriteMessage where
  | said (m : Message)
  | notUtf8
  | json (e : Json.ParseError)
  | debug (before value : String)
  | propose (e : Error)

abbrev WriteError := Nat × WriteMessage

abbrev WriteResult (A : Type) := Client WriteError A

def reads {A : Type} (answer : ApiResult A) : WriteResult A :=
  reading (answer.adapt fun (code, m) => (code, .said m))

def refuse {A : Type} (code : Nat) (text : String) : WriteResult A := raise (code, .said (.text text))

def orRefuse {A : Type} (code : Nat) (text : String) : Option A → WriteResult A
  | some a => pure a
  | none => refuse code text

-- `Tuid::generate`.
def generate : WriteResult Tuid := do
  let s ← view
  update fun s => { s with fresh := fun i => s.fresh (i + 1) }
  return s.fresh 0

def newHeader (id : Tuid) (name : String) (kind : EntityKind) (schemaRef : Tuid) : WriteResult EntityHeader := do
  let placeholder ← generate
  return .new (uuid placeholder) id name kind schemaRef

def fieldId (name : String) : UInt32 :=
  (utf8 name).foldl (fun hash b => (hash ^^^ b.toUInt32) * 0x01000193) 0x811c9dc5

section Payload

def jsonBody (req : HttpRequest) : WriteResult Json.Value :=
  match fromUtf8 req.body with
  | none => raise (400, .notUtf8)
  | some text =>
    match Json.parse text with
    | .ok value => pure value
    | .error e => raise (400, .json e)

def strField (body : Json.Value) (key : String) : Option String := (body.get key).bind Json.Value.asStr

def requiredStr (body : Json.Value) (key : String) : WriteResult String :=
  orRefuse 400 (key ++ " is required") (strField body key)

def tuidField (key : String) (hex : String) : WriteResult Tuid := do
  let found ← reading (ExceptT.lift (Tuid.fromHexStr hex))
  orRefuse 400 ("invalid " ++ key) found

def requiredTuid (body : Json.Value) (key : String) : WriteResult Tuid := do
  let hex ← requiredStr body key
  tuidField key hex

def optionalTuid (body : Json.Value) (key : String) : WriteResult (Option Tuid) :=
  match strField body key with
  | some hex => some <$> tuidField key hex
  | none => pure none

def entries : Json.Value → List (String × Json.Value)
  | .object entries => entries
  | _ => []

end Payload

section Roles

variable (host : Host)

-- The first role of the list that has the name.
def findRole (store : Store) (name : String) : List Tuid → ApiResult (Option Tuid)
  | [] => pure none
  | id :: rest => do
    let found ← Answer.ofStore (status 500) (store.get host.fuel id)
    match found with
    | some (header, _) => if header.name = name then pure (some id) else findRole store name rest
    | none => findRole store name rest

def roleIdByName (store : Store) (name : String) : ApiResult (Option Tuid) := do
  let ids ← Answer.ofStore (status 500) (store.queryByKind host.fuel .role)
  findRole host store name ids

def holdsRole (store : Store) (subject : SubjectContext) : List String → ApiResult Bool
  | [] => pure false
  | name :: rest => do
    match ← roleIdByName host store name with
    | some roleId => if roleId ∈ subject.roles then pure true else holdsRole store subject rest
    | none => holdsRole store subject rest

def requireRole (subject : Option SubjectContext) (store : Store) (allowedRoles : List String) : ApiResult Unit :=
  match subject with
  | none => pure ()
  | some subject => do
    if ← holdsRole host store subject allowedRoles then pure ()
    else throw (403, .text ("requires one of these roles: " ++ ", ".intercalate allowedRoles))

-- What the write routes begin with.
def admission (req : Request) (allowedRoles : List String) : ApiResult Store := do
  let subject ← authorize host req
  let store ← openStore host req
  requireRole host subject store allowedRoles
  return store

end Roles

section Routes

variable (host : Host) (client : ShardedClient) (req : HttpRequest)

def proposeRecord (id : Tuid) (record : LogRecord) : WriteResult Unit := do
  let _ ← (client.propose id record).adapt fun e => (502, .propose e)
  return ()

def proposeInsert (header : EntityHeader) (body : List UInt8) : WriteResult Unit :=
  proposeRecord client header.id (.insert header body)

def proposeDelete (id : Tuid) : WriteResult Unit := proposeRecord client id (.delete id)

def idObject (id : Tuid) : Json.Value := .object (Json.Value.setEntry "id" (.string id.toHexString) [])

-- The roles that may write data.
def dataRoles : List String := [adminRoleName, analystRoleName]

def fieldsBody (payload : Json.Value) : List UInt8 :=
  ((entries ((payload.get "fields").getD .null)).foldl (fun gbv field =>
    gbv.push (fieldId field.1) .str (utf8 (field.2.asStr.getD ""))) GbvBuilder.new).finish

def orGenerate : Option Tuid → WriteResult Tuid
  | some id => pure id
  | none => generate

def saveEntity : WriteResult Json.Value := do
  let _ ← reads (admission host req.toRequest dataRoles)
  let payload ← jsonBody req
  let typeId ← requiredTuid payload "type"
  let name ← requiredStr payload "name"
  let known ← optionalTuid payload "id"
  let id ← orGenerate known
  let header ← newHeader id name .data typeId
  proposeInsert client header (fieldsBody payload)
  return idObject id

def deleteBy (allowedRoles : List String) : WriteResult Json.Value := do
  let _ ← reads (admission host req.toRequest allowedRoles)
  let payload ← jsonBody req
  let id ← requiredTuid payload "id"
  proposeDelete client id
  return .bool true

def deleteEntity : WriteResult Json.Value := deleteBy host client req dataRoles

def saveNamed (kind : EntityKind) (body : List UInt8) : WriteResult Json.Value := do
  let _ ← reads (admission host req.toRequest [adminRoleName])
  let payload ← jsonBody req
  let name ← requiredStr payload "name"
  let id ← generate
  let header ← newHeader id name kind .nil
  proposeInsert client header body
  return idObject id

def saveType : WriteResult Json.Value :=
  saveNamed host client req .entityType
    (EntityType.encode { kind := .structural, attributes := [], compatibleWith := [], incompatibleWith := [] })

def deleteType : WriteResult Json.Value := deleteBy host client req [adminRoleName]

def saveSubject : WriteResult Json.Value :=
  saveNamed host client req .subject (Subject.encode { kind := .user, credentials := none, memberOf := [] })

def namedRole (store : Store) (name : String) : WriteResult Tuid := do
  let roleId ← reads (roleIdByName host store name)
  orRefuse 400 ("no such role: " ++ name) roleId

def namedRoles (store : Store) : List Json.Value → WriteResult (List Tuid)
  | [] => pure []
  | name :: rest => do
    let name ← orRefuse 400 "role_names must be an array of strings" name.asStr
    let role ← namedRole host store name
    let roles ← namedRoles store rest
    return role :: roles

def tokenObject (key token : String) : Json.Value := .object (Json.Value.setEntry key (.string token) [])

def issueToken : WriteResult Json.Value := do
  let store ← reads (admission host req.toRequest [adminRoleName])
  match host.auth with
  | .insecure => refuse 400 "cannot issue tokens while running --insecure (there is no secret to sign with)"
  | .enforced secret =>
    let payload ← jsonBody req
    let subjectId ← requiredTuid payload "subject_id"
    let roleNames ← orRefuse 400 "role_names is required" ((payload.get "role_names").bind Json.Value.asArray)
    let roles ← namedRoles host store roleNames
    return tokenObject "token" (Token.issue secret { subjectId, roles } none)

def parseEntityKind (s : String) : WriteResult EntityKind :=
  if s = "Data" then pure .data
  else if s = "EntityType" then pure .entityType
  else if s = "Subject" then pure .subject
  else if s = "Role" then pure .role
  else if s = "Policy" then pure .policy
  else raise (400, .debug "unknown target_kind: " s)

def parseEffect (s : String) : WriteResult Effect :=
  if s = "permit" then pure .permit
  else if s = "deny" then pure .deny
  else raise (400, .debug "effect must be \"permit\" or \"deny\", got " s)

def targetKind (payload : Json.Value) : WriteResult (Option EntityKind) :=
  match strField payload "target_kind" with
  | some name => some <$> parseEntityKind name
  | none => pure none

def policyRole (store : Store) (payload : Json.Value) : WriteResult Tuid :=
  match strField payload "role_name" with
  | some name => namedRole host store name
  | none => pure .nil

def redactedFields (payload : Json.Value) : List UInt32 :=
  ((((payload.get "redact_fields").bind Json.Value.asArray).getD []).filterMap Json.Value.asStr).map fieldId

def savePolicy : WriteResult Json.Value := do
  let store ← reads (admission host req.toRequest [adminRoleName])
  let payload ← jsonBody req
  let effect ← requiredStr payload "effect"
  let effect ← parseEffect effect
  let entityKind ← targetKind payload
  let schemaRef ← optionalTuid payload "target_type"
  let roleId ← policyRole host store payload
  let subjectId ← optionalTuid payload "subject_id"
  let policy : Policy :=
    { target := { entityKind, schemaRef := schemaRef.getD .nil }
      subject := { subjectId := subjectId.getD .nil, roleId }
      effect, redactAttributes := redactedFields payload }
  let id ← generate
  let header ← newHeader id "policy" .policy .nil
  proposeInsert client header policy.encode
  return idObject id

def deletePolicy : WriteResult Json.Value := deleteBy host client req [adminRoleName]

def seedFrom (adminName : String) : WriteResult Bootstrap := do
  let s ← view
  update fun s => { s with fresh := fun i => s.fresh (i + bootstrapDraws) }
  return bootstrap s.fresh adminName

def setup : WriteResult Json.Value :=
  match host.auth with
  | .insecure => refuse 400
      ("setup is only meaningful when running with a $GEMS_WEBUI_SECRET configured " ++
        "(see --insecure's own docs: that mode never needed a token in the first place)")
  | .enforced secret => do
    let payload ← jsonBody req
    let setupSecret ← requiredStr payload "setup_secret"
    if utf8 setupSecret ≠ secret then refuse 403 "incorrect setup secret"
    else
      let adminName := (strField payload "admin_name").getD "admin"
      let store ← reads (openStore host req.toRequest)
      let taken ← reads (roleIdByName host store adminRoleName)
      if taken.isSome then
        refuse 400 "setup already completed (an \"admin\" role already exists in this store)"
      else
        let seed ← seedFrom adminName
        seed.entities.forM fun entity => proposeInsert client entity.header entity.body
        return tokenObject "admin_token"
          (Token.issue secret { subjectId := seed.adminSubjectId, roles := [seed.adminRoleId] } none)

end Routes

section Dispatch

variable (host : Host) (req : HttpRequest)

inductive Response where
  | page
  | text (status : Nat) (body : String)
  | json (status : Nat) (result : Except WriteError Json.Value)

def respondJson (result : WriteResult Json.Value) : WriteResult Response := do
  let result ← result.attempt
  let status := match result with
    | .error (401, _) => 401
    | _ => 200
  return .json status result

def notFound : Response := .text 404 "not found"

def writeRoute (client : ShardedClient) : Option (WriteResult Json.Value) :=
  if req.path = "/api/entities/save" then some (saveEntity host client req)
  else if req.path = "/api/entities/delete" then some (deleteEntity host client req)
  else if req.path = "/api/types/save" then some (saveType host client req)
  else if req.path = "/api/types/delete" then some (deleteType host client req)
  else if req.path = "/api/subjects/save" then some (saveSubject host client req)
  else if req.path = "/api/subjects/issue-token" then some (issueToken host req)
  else if req.path = "/api/policies/save" then some (savePolicy host client req)
  else if req.path = "/api/policies/delete" then some (deletePolicy host client req)
  else none

def writeNotConfigured : WriteResult Response :=
  respondJson (refuse 503 "write routes are disabled: $GEMS_SHARD_MAP/$GEMS_CLUSTER_SECRET are not configured")

def readRoute : Option (ApiResult Json.Value) :=
  if req.path = "/api/types" then some (listTypes host req.toRequest)
  else if req.path = "/api/query" then some (query host req.toRequest)
  else if req.path = "/api/entity" then some (getEntity host req.toRequest)
  else if req.path = "/api/subjects" then some (listSubjects host req.toRequest)
  else if req.path = "/api/roles" then some (listRoles host req.toRequest)
  else if req.path = "/api/policies" then some (listPolicies host req.toRequest)
  else none

def route (cluster : Option ShardedClient) : WriteResult Response :=
  if req.method = "GET" then
    if req.path = "/" ∨ req.path = "/index.html" then pure .page
    else
      match readRoute host req with
      | some result => respondJson (reads result)
      | none => pure notFound
  else if req.method = "POST" then
    match cluster with
    | none => writeNotConfigured
    | some client =>
      if req.path = "/api/setup" then respondJson (setup host client req)
      else
        match writeRoute host req client with
        | some result => respondJson result
        | none => pure notFound
  else pure notFound

end Dispatch

end Gems.Frontend.Webui
