import Gems.Json.Value
import Gems.Lib.Debug
import Gems.Lib.Hex
import Gems.Lib.Scanner

set_option autoImplicit false

namespace Gems.Json

open Lib

inductive ParseError where
  | trailingInput
  | expected (c : Char) (found : Option Char)
  | unexpectedCharacter (found : Option Char)
  | nestingDepth
  | expectedCommaOr (close : Char) (found : Option Char)
  | unterminatedString
  | invalidEscape (found : Option Char)
  | unterminatedEscape
  | invalidUnicodeEscape (hex : List Char)
  | notStandalone (hex : List Char)
  | invalidNumber (raw : List Char)
  deriving DecidableEq, Repr

abbrev Parser := Scanner Char ParseError

def maxNestingDepth : Nat := 64

def ParseError.display (graphic : Graphic) (e : ParseError) : String :=
  "JSON parse error: " ++ match e with
    | .trailingInput => "unexpected trailing input"
    | .expected c found => "expected '" ++ String.singleton c ++ "', found " ++ debugOption graphic found
    | .unexpectedCharacter found => "unexpected character: " ++ debugOption graphic found
    | .nestingDepth => "exceeds the maximum nesting depth of " ++ String.ofList (decimal maxNestingDepth)
    | .expectedCommaOr close found =>
      "expected ',' or '" ++ String.singleton close ++ "', found " ++ debugOption graphic found
    | .unterminatedString => "unterminated string"
    | .invalidEscape found => "invalid escape: \\" ++ debugOption graphic found
    | .unterminatedEscape => "unterminated \\u escape"
    | .invalidUnicodeEscape hex => "invalid \\u escape: " ++ String.ofList hex
    | .notStandalone hex => "\\u" ++ String.ofList hex ++ " is not a valid standalone code point"
    | .invalidNumber raw => "invalid number: " ++ String.ofList raw

namespace Parser

open Scanner

def skipWhitespace : Parser Unit := do
  let _ ← takeWhile isWhitespace

def expect (c : Char) : Parser Unit := do
  let found ← next
  if found = some c then return () else fail (.expected c found)

def expectLiteral : List Char → Parser Unit
  | [] => return ()
  | c :: literal => do
    expect c
    expectLiteral literal

-- Four characters, as far as there are any.
def takeFour : Nat → Parser (List Char)
  | 0 => return []
  | n + 1 => do
    match ← next with
    | none => fail .unterminatedEscape
    | some c => return c :: (← takeFour n)

def parseUnicodeEscape : Parser Char := do
  let hex ← takeFour 4
  match fromStrRadix16 32 (encodeChars hex) with
  | none => fail (.invalidUnicodeEscape hex)
  | some code => if code.isValidChar then return Char.ofNat code else fail (.notStandalone hex)

def shortEscape : Char → Option Char
  | '"' => some '"'
  | '\\' => some '\\'
  | '/' => some '/'
  | 'b' => some '\x08'
  | 'f' => some '\x0c'
  | 'n' => some '\n'
  | 'r' => some '\r'
  | 't' => some '\t'
  | _ => none

def parseEscape : Parser Char := do
  match ← next with
  | some 'u' => parseUnicodeEscape
  | found =>
    match found.bind shortEscape with
    | some c => return c
    | none => fail (.invalidEscape found)

-- What is behind the opening quote; every turn reads a character, so `fuel` is never used up.
def parseChars : Nat → Parser (List Char)
  | 0 => fail .unterminatedString
  | fuel + 1 => do
    match ← next with
    | none => fail .unterminatedString
    | some '"' => return []
    | some '\\' => do
      let c ← parseEscape
      return c :: (← parseChars fuel)
    | some c => return c :: (← parseChars fuel)

def parseString : Parser String := do
  expect '"'
  let text ← get
  let chars ← parseChars (text.length + 1)
  return String.ofList chars

-- The character at hand, when it is one of these.
def optional (p : Char → Bool) : Parser (List Char) := do
  let found ← peek
  if found.any p then
    let c ← next
    return c.toList
  else return []

def digits : Parser (List Char) := takeWhile Char.isDigit

def fractionPart : Parser (List Char) := do
  let point ← optional (· == '.')
  if point = [] then return [] else return point ++ (← digits)

def exponentPart : Parser (List Char) := do
  let mark ← optional fun c => c == 'e' || c == 'E'
  if mark = [] then return []
  else
    let sign ← optional fun c => c == '+' || c == '-'
    return mark ++ sign ++ (← digits)

def parseNumber : Parser Value := do
  let sign ← optional (· == '-')
  let whole ← digits
  let fraction ← fractionPart
  let exponent ← exponentPart
  let raw := sign ++ (whole ++ (fraction ++ exponent))
  match parseF64 raw with
  | some n => return .number n
  | none => fail (.invalidNumber raw)

section Nesting

variable {A : Type}

-- Items up to the closing bracket; every turn reads a character, so `fuel` is never used up.
def parseItems (item : Parser A) (close : Char) : Nat → Parser (List A)
  | 0 => fail (.expectedCommaOr close none)
  | fuel + 1 => do
    let a ← item
    skipWhitespace
    let found ← next
    if found = some ',' then
      return a :: (← parseItems item close fuel)
    else if found = some close then return [a]
    else fail (.expectedCommaOr close found)

def parseBracketed (opening close : Char) (item : Parser A) : Parser (List A) := do
  expect opening
  skipWhitespace
  if (← peek) = some close then
    let _ ← next
    return []
  else
    let text ← get
    parseItems item close (text.length + 1)

def parseMember (value : Parser Value) : Parser (String × Value) := do
  skipWhitespace
  let key ← parseString
  skipWhitespace
  expect ':'
  let value ← value
  return (key, value)

def parseObject (value : Parser Value) : Parser Value := do
  let entries ← parseBracketed '{' '}' (parseMember value)
  return .object entries

def parseArray (value : Parser Value) : Parser Value := do
  let items ← parseBracketed '[' ']' value
  return .array items

-- `inner` reads the values one level deeper, when the nesting may go there.
def withNesting (inner : Option (Parser Value)) (f : Parser Value → Parser Value) : Parser Value :=
  match inner with
  | none => fail .nestingDepth
  | some value => f value

def parseAny (inner : Option (Parser Value)) : Parser Value := do
  skipWhitespace
  match ← peek with
  | some '{' => withNesting inner parseObject
  | some '[' => withNesting inner parseArray
  | some '"' => return .string (← parseString)
  | some 't' => do
    expectLiteral ['t', 'r', 'u', 'e']
    return .bool true
  | some 'f' => do
    expectLiteral ['f', 'a', 'l', 's', 'e']
    return .bool false
  | some 'n' => do
    expectLiteral ['n', 'u', 'l', 'l']
    return .null
  | found => if found.any fun c => c == '-' || c.isDigit then parseNumber else fail (.unexpectedCharacter found)

-- `room` is `MAX_NESTING_DEPTH - depth`.
def parseValue : Nat → Parser Value
  | 0 => parseAny none
  | room + 1 => parseAny (some (parseValue room))

end Nesting

def parseAll : Parser Value := do
  skipWhitespace
  let value ← parseValue maxNestingDepth
  skipWhitespace
  match ← peek with
  | some _ => fail .trailingInput
  | none => return value

end Parser

def parse (src : String) : Except ParseError Value := (Parser.parseAll src.toList).map Prod.fst

end Gems.Json
