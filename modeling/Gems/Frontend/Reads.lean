import Gems.Abac.Token
import Gems.Engine.Enforced
import Gems.Query.Parser

set_option autoImplicit false

namespace Gems.Frontend

open Lib Catalog Codec Engine Abac

/-- What a failed request says. The text of an error of another part is left as that error. -/
inductive Message where
  | text (s : String)
  | token (e : TokenError)
  | query (e : Query.ParseError)
  | store (e : Error)

-- A panic ends the request without an answer.
abbrev Answer (E A : Type) := ExceptT E (Except Fault) A

namespace Answer

variable {E A : Type}

def required (e : E) : Option A → Answer E A
  | some a => pure a
  | none => throw e

def ofStore (failed : Message → E) : Except Fault A → Answer E A
  | .ok a => pure a
  | .error (.raised e) => throw (failed (.store e))
  | .error fault => ExceptT.lift (.error fault)

def ofToken (failed : Message → E) (verdict : Verdict A) : Answer E A := verdict.adapt fun e => failed (.token e)

def ofParse (failed : Message → E) : Except Query.ParseError A → Answer E A
  | .ok a => pure a
  | .error e => throw (failed (.query e))

end Answer

def kindName : EntityKind → String
  | .data => "Data"
  | .entityAttribute => "EntityAttribute"
  | .entityType => "EntityType"
  | .subject => "Subject"
  | .layer => "Layer"
  | .layerGroup => "LayerGroup"
  | .variantList => "VariantList"
  | .role => "Role"
  | .linkType => "LinkType"
  | .link => "Link"
  | .policy => "Policy"

section Objects

-- The entries of the object, in the order in which they are set.
def entitySummary (header : EntityHeader) : List (String × Json.Value) :=
  let v := Json.Value.setEntry "id" (.string header.id.toHexString) []
  let v := Json.Value.setEntry "name" (.string header.name) v
  let v := Json.Value.setEntry "description" (.string header.description) v
  let v := Json.Value.setEntry "kind" (.string (kindName header.entityKind)) v
  Json.Value.setEntry "schema_ref" (.string header.schemaRef.toHexString) v

def summaries (entities : List Entity) : Json.Value := .array (entities.map fun e => .object (entitySummary e.1))

def fieldName (key : UInt32) : String := String.ofList (decimal key.toNat)

-- The text fields of a body.
def fieldsOf (reader : GbvReader) : List (String × Json.Value) :=
  reader.keyIds.foldl (fun fields key =>
    match reader.get key with
    | some (.str, value) => Json.Value.setEntry (fieldName key) (.string (fromUtf8Lossy value)) fields
    | _ => fields) []

def entityObject (header : EntityHeader) (body : List UInt8) : Json.Value :=
  if header.entityKind = .data then
    match GbvReader.new body with
    | .ok reader => .object (Json.Value.setEntry "fields" (.object (fieldsOf reader)) (entitySummary header))
    | .error _ => .object (entitySummary header)
  else .object (entitySummary header)

end Objects

section Handlers

variable {E : Type} (failed : Message → E) (fuel : Nat) (store : Store) (subject : Option SubjectContext)

def readOne (id : Tuid) : Answer E (Option Entity) :=
  Answer.ofStore failed (match subject with
    | some subject => store.getEnforced fuel id subject
    | none => store.get fuel id)

def listByKind (kind : EntityKind) : Answer E Json.Value := do
  let ids ← Answer.ofStore failed (store.queryByKind fuel kind)
  let found ← ids.mapM (readOne failed fuel store subject)
  pure (summaries (found.filterMap fun entity => entity))

def runQuery (query : Gems.Query) : Answer E Json.Value :=
  match subject with
  | some subject => do
    let entities ← Answer.ofStore failed (store.queryEnforced fuel query subject)
    pure (summaries entities)
  | none => do
    let ids ← Answer.ofStore failed (store.query fuel query)
    let found ← ids.mapM (readOne failed fuel store none)
    pure (summaries (found.filterMap fun entity => entity))

def readEntity (missing : E) (id : Tuid) : Answer E Json.Value := do
  let found ← readOne failed fuel store subject id
  let (header, body) ← Answer.required missing found
  pure (entityObject header body)

end Handlers

/-- What the process finds around it. A directory is open to it as the files of the store it was last used by. -/
structure Host where
  os : PageSize
  fuel : Nat
  unicode : Query.Unicode
  directories : String → Option Store
  auth : AuthMode
  now : UInt64

def Host.openStore (host : Host) (dir : String) : Except Fault Store :=
  match host.directories dir with
  | none => .error (.raised .io)
  | some left => Store.openDir host.os host.fuel left.onDisk

namespace Webui

structure Request where
  query : List (String × String)
  headers : List (String × String)

namespace Request

def queryParam (req : Request) (key : String) : Option String :=
  (req.query.find? fun param => param.1 == key).map Prod.snd

def header (req : Request) (name : String) : Option String :=
  (req.headers.find? fun header => eqIgnoreAsciiCase header.1 name).map Prod.snd

def bearerToken (req : Request) : Option String := do
  let value ← req.header "Authorization"
  let token ← value.toList.dropPrefix? "Bearer ".toList
  pure (String.ofList token)

theorem bearerToken_of_header {req : Request} {token : String}
    (header : req.header "Authorization" = some ("Bearer " ++ token)) : req.bearerToken = some token := by
  have dropped : ("Bearer " ++ token).toList.dropPrefix? "Bearer ".toList = some token.toList :=
    List.dropPrefix?_eq_some_iff.mpr ⟨_, String.toList_append, beq_self_eq_true _⟩
  simp only [bearerToken, header, bind, Option.bind, dropped, pure, String.ofList_toList]

end Request

abbrev ApiResult := Answer (Nat × Message)

-- An error with the status that goes with it.
def status (code : Nat) (message : Message) : Nat × Message := (code, message)

def openStore (host : Host) (req : Request) : ApiResult Store := do
  let dir ← Answer.required (400, .text "store_dir is required") (req.queryParam "store_dir")
  Answer.ofStore (status 400) (host.openStore dir)

def authorize (host : Host) (req : Request) : ApiResult (Option SubjectContext) :=
  Answer.ofToken (status 401) (host.auth.authorize req.bearerToken host.now)

def listTypes (host : Host) (req : Request) : ApiResult Json.Value := do
  let _ ← authorize host req
  let store ← openStore host req
  -- read without the caller
  listByKind (status 500) host.fuel store none .entityType

def query (host : Host) (req : Request) : ApiResult Json.Value := do
  let subject ← authorize host req
  let store ← openStore host req
  let queryStr ← Answer.required (400, .text "q (query string) is required") (req.queryParam "q")
  let parsed ← Answer.ofParse (status 400) (Query.parse host.unicode queryStr)
  runQuery (status 500) host.fuel store subject parsed

def getEntity (host : Host) (req : Request) : ApiResult Json.Value := do
  let subject ← authorize host req
  let store ← openStore host req
  let idHex ← Answer.required (400, .text "id is required") (req.queryParam "id")
  let id ← Answer.required (400, .text "invalid id") (← ExceptT.lift (Tuid.fromHexStr idHex))
  readEntity (status 500) host.fuel store subject (404, .text "no such entity") id

def listByKindEnforced (host : Host) (req : Request) (kind : EntityKind) : ApiResult Json.Value := do
  let subject ← authorize host req
  let store ← openStore host req
  listByKind (status 500) host.fuel store subject kind

def listSubjects (host : Host) (req : Request) : ApiResult Json.Value := listByKindEnforced host req .subject

def listRoles (host : Host) (req : Request) : ApiResult Json.Value := listByKindEnforced host req .role

def listPolicies (host : Host) (req : Request) : ApiResult Json.Value := listByKindEnforced host req .policy

end Webui

namespace Mcp

abbrev ToolResult := Answer Message

def argument (args : Json.Value) (key : String) : Option String := (args.get key).bind Json.Value.asStr

def openStore (host : Host) (args : Json.Value) : ToolResult Store := do
  let dir ← Answer.required (.text "store_dir is required") (argument args "store_dir")
  Answer.ofStore id (host.openStore dir)

def authorize (host : Host) (args : Json.Value) : ToolResult (Option SubjectContext) :=
  Answer.ofToken id (host.auth.authorize (argument args "auth_token") host.now)

def query (host : Host) (args : Json.Value) : ToolResult Json.Value := do
  let subject ← authorize host args
  let store ← openStore host args
  let queryStr ← Answer.required (.text "query is required") (argument args "query")
  let query ← Answer.ofParse id (Query.parse host.unicode queryStr)
  runQuery id host.fuel store subject query

def getEntity (host : Host) (args : Json.Value) : ToolResult Json.Value := do
  let subject ← authorize host args
  let store ← openStore host args
  let idHex ← Answer.required (.text "id is required") (argument args "id")
  let id ← Answer.required (.text "invalid id: must be 48 hex characters") (← ExceptT.lift (Tuid.fromHexStr idHex))
  readEntity (fun e => e) host.fuel store subject (.text "no such entity (or not visible to this subject)") id

def listEntityTypes (host : Host) (args : Json.Value) : ToolResult Json.Value := do
  let _ ← authorize host args
  let store ← openStore host args
  -- read without the caller
  listByKind id host.fuel store none .entityType

end Mcp

end Gems.Frontend
