import Gems.Frontend.Reads
import Gems.Lib.Reader

set_option autoImplicit false

namespace Gems.Frontend.Webui

open Lib

def maxLineLen : Nat := 8 * 1024

def maxHeaderLines : Nat := 200

def maxBodyLen : Nat := 1024 * 1024

structure HttpRequest extends Request where
  method : String
  path : String
  body : List UInt8

inductive HttpError where
  | io
  | utf8
  | text (s : String)

def newline : UInt8 := 10

section Query

-- `split_once`, and the text itself where the character is missing.
def splitOnce (c : Char) (text : List Char) : List Char × Option (List Char) :=
  match text.span (· ≠ c) with
  | (before, _ :: after) => (before, some after)
  | (before, []) => (before, none)

-- One byte of the text, and how many it takes.
def urlByte : List UInt8 → Option (UInt8 × Nat)
  | [] => none
  | b :: rest =>
    if b = 43 then some (32, 1)
    else if b = 37 then
      match rest with
      | high :: low :: _ =>
        match fromStrRadix16 8 [high, low] with
        | some byte => some (UInt8.ofNat byte, 3)
        | none => some (b, 1)
      | _ => some (b, 1)
    else some (b, 1)

-- Every turn takes a byte, so as many turns as bytes are enough.
def urlBytes : Nat → List UInt8 → List UInt8
  | 0, _ => []
  | turns + 1, bytes =>
    match urlByte bytes with
    | none => []
    | some (b, taken) => b :: urlBytes turns (bytes.drop taken)

def urlDecode (s : List Char) : String :=
  let bytes := encodeChars s
  fromUtf8Lossy (urlBytes bytes.length bytes)

def parseQueryString (s : List Char) : List (String × String) :=
  if s.isEmpty then []
  else ((s.splitOn '&').filter fun pair => !pair.isEmpty).map fun pair =>
    match splitOnce '=' pair with
    | (k, some v) => (urlDecode k, urlDecode v)
    | (pair, none) => (urlDecode pair, "")

end Query

section Lines

variable (closed : Bool)

def readLineCapped : Reader HttpError (List Char) := do
  let buf ← Reader.untilByte .io closed newline maxLineLen
  if buf.length ≥ maxLineLen ∧ buf.getLast? ≠ some newline then
    Reader.fail (.text "line exceeds the maximum allowed length")
  else
    match fromUtf8 buf with
    | some line => return line.toList
    | none => Reader.fail .utf8

def trimEnd (text : List Char) : List Char := (text.reverse.dropWhile isWhitespace).reverse

def trimLineEnd (text : List Char) : List Char := (text.reverse.dropWhile fun c => c = '\r' || c = '\n').reverse

def headerOf (line : List Char) : Option (String × String) :=
  match splitOnce ':' line with
  | (name, some value) => some (String.ofList (trim name), String.ofList (trim value))
  | (_, none) => none

-- At most so many lines, up to the blank one.
def readHeaders : Nat → Reader HttpError (List (String × String))
  | 0 => pure []
  | lines + 1 => do
    let headerLine ← readLineCapped closed
    let trimmed := trimLineEnd headerLine
    if trimmed.isEmpty then return []
    else
      let rest ← readHeaders lines
      return (headerOf trimmed).toList ++ rest

def readBody (headers : List (String × String)) : Reader HttpError (List UInt8) :=
  match headers.find? fun header => eqIgnoreAsciiCase header.1 "Content-Length" with
  | none => pure []
  | some (_, v) =>
    match parseUnsigned 64 v.toList with
    | none => Reader.fail (.text "invalid Content-Length")
    | some len =>
      if len > maxBodyLen then Reader.fail (.text "request body exceeds the maximum allowed length")
      else Reader.take .io len

-- The method and the target of the request line.
def requestParts (line : List Char) : Reader HttpError (List Char × List Char) :=
  match splitOnce ' ' (trimEnd line) with
  | (_, none) => Reader.fail (.text "missing request target")
  | (method, some rest) => pure (method, (splitOnce ' ' rest).1)

def parseRequest : Reader HttpError HttpRequest := do
  let requestLine ← readLineCapped closed
  if requestLine.isEmpty then Reader.fail (.text "empty request")
  else
    let (method, target) ← requestParts requestLine
    let headers ← readHeaders closed maxHeaderLines
    let (path, queryString) := splitOnce '?' target
    let query := parseQueryString (queryString.getD [])
    let body ← readBody headers
    return { method := String.ofList method, path := String.ofList path, query, headers, body }

end Lines

end Gems.Frontend.Webui
