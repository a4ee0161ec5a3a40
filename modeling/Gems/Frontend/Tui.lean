import Gems.Frontend.Protocol
import Gems.Lib.Terminal

set_option autoImplicit false

namespace Gems.Frontend.Tui

open Lib Catalog Codec Engine

inductive Key where
  | up
  | down
  | enter
  | escape
  | backspace
  | quit
  | enterQueryMode
  | char (c : Char)
  deriving DecidableEq

inductive Mode where
  | browse
  | queryInput
  deriving DecidableEq

structure EntitySummary where
  id : Tuid
  name : String
  kind : String

structure DetailView where
  headerLines : List (String × String)
  fields : List (String × String)

structure App where
  store : Store
  storeDir : String
  mode : Mode
  queryInput : List Char
  lastQuery : String
  entities : List EntitySummary
  selected : Nat
  error : Option String
  detail : Option DetailView

def defaultQuery : String := "SELECT * FROM entities"

-- An error that is looked at; a panic goes on.
def caught {A : Type} : Except Fault A → Except Fault (Except Error A)
  | .ok a => .ok (.ok a)
  | .error (.raised e) => .ok (.error e)
  | .error fault => .error fault

def asI32 (n : Nat) : ℤ := Int.bmod n (2 ^ 32)

def summarize (header : EntityHeader) : EntitySummary :=
  { id := header.id, name := header.name, kind := kindName header.entityKind }

def textFields (reader : GbvReader) : List (String × String) :=
  reader.keyIds.filterMap fun key =>
    match reader.get key with
    | some (.str, value) => some (fieldName key, fromUtf8Lossy value)
    | _ => none

def detailOf (header : EntityHeader) (body : List UInt8) : DetailView where
  headerLines := [("id", header.id.toHexString), ("name", header.name), ("description", header.description),
    ("kind", kindName header.entityKind), ("schema_ref", header.schemaRef.toHexString)]
  fields :=
    if header.entityKind = .data then
      match GbvReader.new body with
      | .ok reader => textFields reader
      | .error _ => []
    else []

namespace App

section Handlers

variable (texts : Mcp.Texts) (host : Host)

def loadDetail (app : App) : Except Fault App :=
  match app.entities[app.selected]? with
  | none => pure { app with detail := none }
  | some summary => do
    match ← caught (app.store.get host.fuel summary.id) with
    | .ok (some (header, body)) => pure { app with detail := some (detailOf header body) }
    | _ => pure { app with detail := none }

-- What the loop over the ids keeps of an answer.
def listed : Except Error (Option Entity) → Option EntitySummary
  | .ok (some (header, _)) => some (summarize header)
  | _ => none

def runQuery (query : String) (app : App) : Except Fault App :=
  let app := { app with lastQuery := query, error := none, entities := [], selected := 0, detail := none }
  match Query.parse host.unicode query with
  | .error e => pure { app with error := some (texts.query e) }
  | .ok parsed => do
    match ← caught (app.store.query host.fuel parsed) with
    | .error e => pure { app with error := some (texts.store e) }
    | .ok ids =>
      let found ← ids.mapM fun id => caught (app.store.get host.fuel id)
      loadDetail host { app with entities := found.filterMap listed }

def moveSelection (delta : ℤ) (app : App) : Except Fault App :=
  if app.entities.isEmpty then pure app
  else
    let len := asI32 app.entities.length
    -- the sum stays below 2^31: the selection is on the list, which is shorter by far
    let next := asI32 app.selected + delta
    -- the bounds of `clamp` are asserted to be in order
    if len - 1 < 0 then throw .panicked
    else loadDetail host { app with selected := (max 0 (min (len - 1) next)).toNat }

def handleKey (key : Key) (app : App) : Except Fault (App × Bool) :=
  match app.mode with
  | .browse =>
    match key with
    | .quit => pure (app, true)
    | .up => do return (← moveSelection host (-1) app, false)
    | .down => do return (← moveSelection host 1 app, false)
    | .enterQueryMode => pure ({ app with mode := .queryInput, queryInput := [] }, false)
    | _ => pure (app, false)
  | .queryInput =>
    match key with
    | .enter => do return (← runQuery texts host (String.ofList app.queryInput) { app with mode := .browse }, false)
    | .escape => pure ({ app with mode := .browse }, false)
    | .backspace => pure ({ app with queryInput := app.queryInput.dropLast }, false)
    | .char c => pure ({ app with queryInput := app.queryInput ++ [c] }, false)
    | _ => pure (app, false)

def openDir (dir : String) : Except Fault App := do
  let store ← host.openStore dir
  runQuery texts host defaultQuery
    { store, storeDir := dir, mode := .browse, queryInput := [], lastQuery := defaultQuery
      entities := [], selected := 0, error := none, detail := none }

end Handlers

end App

-- What a byte types into the query.
def typed (b : UInt8) : Char := if b.toNat < 128 then Char.ofNat b.toNat else '?'

def decode (bytes : List UInt8) (mode : Mode) : Option (Key × Nat) :=
  match bytes with
  | [] => none
  | first :: rest =>
    if first = 0x1b then
      if rest[0]? = some 91 then
        if rest[1]? = some 65 then some (.up, 3)
        else if rest[1]? = some 66 then some (.down, 3)
        else some (.escape, 1)
      else some (.escape, 1)
    else if first = 13 ∨ first = 10 then some (.enter, 1)
    else if first = 0x7f ∨ first = 8 then some (.backspace, 1)
    else if first = 3 then some (.quit, 1)
    else if first = 113 ∧ mode = .browse then some (.quit, 1)
    else if first = 107 ∧ mode = .browse then some (.up, 1)
    else if first = 106 ∧ mode = .browse then some (.down, 1)
    else if first = 47 ∧ mode = .browse then some (.enterQueryMode, 1)
    else some (.char (typed first), 1)

structure Screen where
  cols : Nat
  lines : List (List Char)

def padOrTruncate (text : List Char) (width : Nat) : List Char :=
  text.take width ++ List.replicate (width - (text.take width).length) ' '

namespace Screen

def reverseOn : List Char := csi ['7'] 'm'

def reverseOff : List Char := csi ['0'] 'm'

def new (rows cols : Nat) : Screen := { cols, lines := List.replicate rows [] }

def setLine (screen : Screen) (row : Nat) (text : List Char) (reverse : Bool) : Screen :=
  let truncated := padOrTruncate text screen.cols
  { screen with
    lines := screen.lines.set row (if reverse then reverseOn ++ truncated ++ reverseOff else truncated) }

def render (screen : Screen) (prev : Option Screen) : List Char :=
  repaints (prev.elim [] Screen.lines) 0 screen.lines

end Screen

section Rendering

def title (app : App) : List Char :=
  "gems-tui | ".toList ++ app.storeDir.toList ++ " | q:quit  j/k:move  /:query".toList

def listText (app : App) (row : Nat) : List Char :=
  (app.entities[row]?.map fun e => e.name.toList ++ " [".toList ++ e.kind.toList ++ "]".toList).getD []

def detailTexts (detail : DetailView) : List (List Char) :=
  detail.headerLines.map (fun line => line.1.toList ++ ": ".toList ++ line.2.toList) ++
    if detail.fields.isEmpty then []
    else [] :: detail.fields.map fun field => field.1.toList ++ " = ".toList ++ field.2.toList

def statusText (app : App) : List Char :=
  match app.mode with
  | .browse =>
    match app.error with
    | some e => "error: ".toList ++ e.toList
    | none => "query: ".toList ++ app.lastQuery.toList
  | .queryInput => '/' :: app.queryInput

-- The next line of the detail, as long as there is room for it.
def pushDetail (bodyRows listWidth : Nat) (state : Screen × Nat) (text : List Char) : Screen × Nat :=
  if state.2 < bodyRows then
    (state.1.setLine (state.2 + 1) (List.replicate listWidth ' ' ++ "| ".toList ++ text) false, state.2 + 1)
  else state

def renderScreen (app : App) (rows cols : Nat) : Screen :=
  let screen := Screen.new rows cols
  if rows = 0 then screen
  else
    let screen := screen.setLine 0 (title app) true
    let bodyRows := rows - 2
    let listWidth := cols / 3
    let screen := (List.range bodyRows).foldl (fun screen row =>
      screen.setLine (row + 1) (padOrTruncate (listText app row) listWidth)
        (row == app.selected && row < app.entities.length)) screen
    let screen := app.detail.elim screen fun detail =>
      ((detailTexts detail).foldl (pushDetail bodyRows listWidth) (screen, 0)).1
    screen.setLine (rows - 1) (statusText app) false

end Rendering

section Loop

variable (texts : Mcp.Texts) (host : Host)

-- The keys of one read; the flag says that the browser is left.
def feed : Nat → List UInt8 → App → Except Fault (App × Bool)
  | 0, _, app => pure (app, false)
  | turns + 1, bytes, app =>
    match decode bytes app.mode with
    | none => pure (app, false)
    | some (key, consumed) =>
      if key = .quit then pure (app, true)
      else do
        let (app, _) ← app.handleKey texts host key
        feed turns (bytes.drop consumed) app

-- One turn of the loop: the size that the terminal tells, and what is read after the frame.
structure Turn where
  size : Option (Nat × Nat)
  read : List UInt8

-- A frame as it is written, for the size it was made for.
structure Frame where
  app : App
  rows : Nat
  cols : Nat
  text : List Char

structure Session where
  app : App
  screen : Option Screen
  frames : List Frame

def Session.start (app : App) : Session := { app, screen := none, frames := [] }

-- Where no size is told, or an empty one, it draws for 24 rows of 80.
def terminalSize : Option (Nat × Nat) → Nat × Nat
  | some (rows, cols) => if 0 < rows ∧ 0 < cols then (rows, cols) else (24, 80)
  | none => (24, 80)

def Session.draw (s : Session) (size : Option (Nat × Nat)) : Session :=
  let rows := (terminalSize size).1
  let cols := (terminalSize size).2
  let screen := renderScreen s.app rows cols
  { s with
    screen := some screen
    frames := s.frames ++ [{ app := s.app, rows, cols, text := screen.render s.screen }] }

def run : List Turn → Session → Except Fault (Session × Bool)
  | [], s => pure (s, false)
  | turn :: rest, s => do
    let s := s.draw turn.size
    let (app, quit) ← feed texts host turn.read.length turn.read s.app
    if quit then pure ({ s with app }, true) else run rest { s with app }

end Loop

end Gems.Frontend.Tui
