import Gems.Frontend.Reads
import Gems.Json.Shape
import Gems.Lib.Reader

set_option autoImplicit false

namespace Gems.Frontend.Mcp

open Lib Abac

/-- What the texts of errors take from elsewhere: the tables of the language, and what the system says of an error. -/
structure Texts where
  graphic : Graphic
  io : String

def Texts.json (texts : Texts) (e : Json.ParseError) : String := e.display texts.graphic

def Texts.query (texts : Texts) (e : Query.ParseError) : String := e.display texts.graphic

def Texts.store (texts : Texts) (e : Error) : String := e.display texts.io

def tokenText : TokenError → String
  | .missing => "missing access token"
  | .malformed => "malformed token"
  | .badSignature => "invalid token signature"
  | .expired => "token has expired"

def Texts.message (texts : Texts) : Message → String
  | .text s => s
  | .token e => tokenText e
  | .query e => texts.query e
  | .store e => texts.store e

def parseError : ℤ := -32700

def methodNotFound : ℤ := -32601

def invalidParams : ℤ := -32602

def maxLineLen : Nat := 16 * 1024 * 1024

section Objects

open Json.Value (objectOf)

def successResponse (id result : Json.Value) : Json.Value :=
  objectOf [("jsonrpc", .string "2.0"), ("id", id), ("result", result)]

def errorResponse (id : Json.Value) (code : ℤ) (message : String) : Json.Value :=
  objectOf [("jsonrpc", .string "2.0"), ("id", id),
    ("error", objectOf [("code", .number (.ofInt code)), ("message", .string message)])]

def initializeResult : Json.Value :=
  objectOf [("protocolVersion", .string "2024-11-05"), ("capabilities", objectOf [("tools", objectOf [])]),
    ("serverInfo", objectOf [("name", .string "gems-mcp"), ("version", .string "0.1.0")])]

def toolSchema (name description : String) (properties : Json.Value) (required : List String) : Json.Value :=
  let schema := objectOf [("type", .string "object"), ("properties", properties),
    ("required", .array (required.map .string))]
  objectOf [("name", .string name), ("description", .string description), ("inputSchema", schema)]

def stringProp (description : String) : Json.Value :=
  objectOf [("type", .string "string"), ("description", .string description)]

def authTokenProp : Json.Value :=
  stringProp ("Bearer-style access token from gems-abac::token::issue. Required unless the " ++
    "server is running in --insecure mode.")

def storeDirProp : Json.Value := stringProp "Path to the store directory"

def toolsListResult : Json.Value :=
  objectOf [("tools", .array [
    toolSchema "query" "Run a SQL-subset query against an entity store"
      (objectOf [("store_dir", storeDirProp), ("query", stringProp "A SELECT ... FROM entities ... query string"),
        ("auth_token", authTokenProp)]) ["store_dir", "query"],
    toolSchema "get_entity" "Fetch one entity by id"
      (objectOf [("store_dir", storeDirProp), ("id", stringProp "Entity id, as 48 hex characters"),
        ("auth_token", authTokenProp)]) ["store_dir", "id"],
    toolSchema "list_entity_types" "List every EntityType defined in a store"
      (objectOf [("store_dir", storeDirProp), ("auth_token", authTokenProp)]) ["store_dir"]])]

end Objects

section Dispatch

open Json.Value (objectOf)

variable (texts : Texts) (host : Host)

def toolNamed (name : String) (args : Json.Value) : ToolResult Json.Value :=
  if name = "query" then query host args
  else if name = "get_entity" then getEntity host args
  else if name = "list_entity_types" then listEntityTypes host args
  else throw (.text ("unknown tool: " ++ name))

def callTool (params : Json.Value) : ToolResult Json.Value :=
  match (params.get "name").bind Json.Value.asStr with
  | some name => toolNamed host name ((params.get "arguments").getD (.object []))
  | none => throw (.text "tools/call requires a tool name")

def textBlock (text : String) : Json.Value := objectOf [("type", .string "text"), ("text", .string text)]

def handleToolsCall (params : Json.Value) : Except Fault Json.Value := do
  match ← (callTool host params).run with
  | .ok value => return objectOf [("content", .array [textBlock value.toString])]
  | .error message =>
    return objectOf [("content", .array [textBlock (texts.message message)]), ("isError", .bool true)]

def answer (request id : Json.Value) : Except Fault Json.Value :=
  let method := ((request.get "method").bind Json.Value.asStr).getD ""
  if method = "initialize" then return successResponse id initializeResult
  else if method = "tools/list" then return successResponse id toolsListResult
  else if method = "tools/call" then
    match request.get "params" with
    | some params => successResponse id <$> handleToolsCall texts host params
    | none => return errorResponse id invalidParams "tools/call requires params"
  else return errorResponse id methodNotFound ("unknown method: " ++ method)

-- What is answered to a line, before it is written.
def respond (line : String) : Except Fault (Option Json.Value) :=
  match Json.parse line with
  | .error e => return some (errorResponse .null parseError (texts.json e))
  | .ok request =>
    match request.get "id" with
    | none => return none
    | some id => some <$> answer texts host request id

def dispatch (line : String) : Except Fault (Option String) :=
  Option.map Json.Value.toString <$> respond texts host line

end Dispatch

section Loop

variable (texts : Texts)

-- The lines that the loop reads, up to the end of the input or a line that is too long.
def readLines : Nat → List UInt8 → List (List UInt8)
  | 0, _ => []
  | turns + 1, input =>
    match Reader.untilByte () true 10 maxLineLen input with
    | .error _ => []
    | .ok (buf, rest) =>
      if buf.isEmpty then []
      else if buf.length ≥ maxLineLen ∧ buf.getLast? ≠ some 10 then []
      else buf :: readLines turns rest

-- The hosts are those that the lines find; a panic ends the process.
def serveLines : (Nat → Host) → List (List UInt8) → List String × Option Fault
  | _, [] => ([], none)
  | hosts, buf :: rest =>
    match fromUtf8 buf with
    | none => serveLines (fun i => hosts (i + 1)) rest
    | some line =>
      if (trim line.toList).isEmpty then serveLines (fun i => hosts (i + 1)) rest
      else
        match dispatch texts (hosts 0) line with
        | .error fault => ([], some fault)
        | .ok none => serveLines (fun i => hosts (i + 1)) rest
        | .ok (some response) =>
          let later := serveLines (fun i => hosts (i + 1)) rest
          ((response ++ "\n") :: later.1, later.2)

-- What is written to the standard output. Every turn reads a byte, so one turn more than there are bytes is enough.
def main (hosts : Nat → Host) (stdin : List UInt8) : List Char × Option Fault :=
  let ran := serveLines texts hosts (readLines (stdin.length + 1) stdin)
  (ran.1.flatMap String.toList, ran.2)

end Loop

end Gems.Frontend.Mcp
