import Gems.Lib.Debug
import Gems.Lib.Scanner
import Gems.Lib.Utf8

set_option autoImplicit false

namespace Gems.Query

open Lib

/-- `is_alphabetic` and `is_numeric`, whose tables come with the language: what is known of them
on ASCII and on white space. -/
structure Unicode where
  isAlphabetic : Char → Bool
  isNumeric : Char → Bool
  ascii_alphabetic : ∀ c, c.toNat < 128 → isAlphabetic c = c.isAlpha
  ascii_numeric : ∀ c, c.toNat < 128 → isNumeric c = c.isDigit
  white : ∀ c, isWhitespace c = true → isAlphabetic c = false ∧ isNumeric c = false

def Unicode.ascii : Unicode where
  isAlphabetic := Char.isAlpha
  isNumeric := Char.isDigit
  ascii_alphabetic _ _ := rfl
  ascii_numeric _ _ := rfl
  white c blank := by
    cases letter : c.isAlpha with
    | true =>
      rw [not_isWhitespace_of_letter letter] at blank
      cases blank
    | false =>
      cases digit : c.isDigit with
      | true =>
        rw [not_isWhitespace_of_digit digit] at blank
        cases blank
      | false => exact ⟨rfl, rfl⟩

inductive Token where
  | ident (s : String)
  | str (s : String)
  | num (n : F64)
  | comma
  | lParen
  | rParen
  | dot
  | star
  | eq
  | neq
  | lt
  | lte
  | gt
  | gte
  | eof
  deriving DecidableEq, Repr

def Token.debug (graphic : Graphic) : Token → String
  | .ident s => "Ident(" ++ debugText graphic s ++ ")"
  | .str s => "Str(" ++ debugText graphic s ++ ")"
  | .num n => "Num(" ++ debugF64 n ++ ")"
  | .comma => "Comma"
  | .lParen => "LParen"
  | .rParen => "RParen"
  | .dot => "Dot"
  | .star => "Star"
  | .eq => "Eq"
  | .neq => "Neq"
  | .lt => "Lt"
  | .lte => "Lte"
  | .gt => "Gt"
  | .gte => "Gte"
  | .eof => "Eof"

inductive LexError where
  | unexpectedCharacter (c : Char) (start : Nat)
  | unterminatedString
  | invalidNumber (raw : List Char)
  deriving DecidableEq, Repr

-- A number starts with a digit, so it is never the empty text, of which `parse` says something else.
def LexError.display : LexError → String
  | .unexpectedCharacter c start =>
    "unexpected character '" ++ String.singleton c ++ "' at byte " ++ String.ofList (decimal start)
  | .unterminatedString => "unterminated string literal"
  | .invalidNumber _ => "invalid number literal: invalid float literal"

abbrev Lexer := Scanner Char LexError

namespace Lexer

open Scanner

variable (unicode : Unicode)

def identStart (c : Char) : Bool := unicode.isAlphabetic c || c == '_'

def identPart (c : Char) : Bool := unicode.isAlphabetic c || unicode.isNumeric c || c == '_'

def numberPart (c : Char) : Bool := c.isDigit || c == '.'

-- What is behind the opening quote.
def stringChars : List Char → Except LexError (List Char × List Char)
  | [] => .error .unterminatedString
  | '\'' :: '\'' :: rest => do
    let (chars, rest) ← stringChars rest
    return ('\'' :: chars, rest)
  | '\'' :: rest => .ok ([], rest)
  | c :: rest => do
    let (chars, rest) ← stringChars rest
    return (c :: chars, rest)

def lexString : Lexer Token := do
  let _ ← next
  let chars ← stringChars
  return .str (String.ofList chars)

def lexNumber : Lexer Token := do
  let raw ← takeWhile numberPart
  match parseF64 raw with
  | some n => return .num n
  | none => fail (.invalidNumber raw)

def lexIdent : Lexer Token := do
  let name ← takeWhile (identPart unicode)
  return .ident (String.ofList name)

-- One token, or the longer one when an equals sign follows.
def withEquals (long short : Token) : Lexer Token := do
  if (← peek) = some '=' then
    let _ ← next
    return long
  else return short

-- `start` is where the character is.
def lexSymbol (start : Nat) (c : Char) : Lexer Token := do
  let _ ← next
  match c with
  | ',' => return .comma
  | '(' => return .lParen
  | ')' => return .rParen
  | '.' => return .dot
  | '*' => return .star
  | '=' => return .eq
  | '<' => withEquals .lte .lt
  | '>' => withEquals .gte .gt
  | '!' =>
    if (← peek) = some '=' then
      let _ ← next
      return .neq
    else fail (.unexpectedCharacter '!' start)
  | other => fail (.unexpectedCharacter other start)

-- `size` is the length of the source in bytes.
def nextToken (size : Nat) : Lexer Token := do
  let _ ← takeWhile isWhitespace
  match ← peek with
  | none => return .eof
  | some c => do
    let text ← get
    if c = '\'' then lexString
    else if c.isDigit then lexNumber
    else if identStart unicode c then lexIdent unicode
    else lexSymbol (size - (encodeChars text).length) c

-- Every token but the last takes a character, so `fuel` is never used up.
def tokens (size : Nat) : Nat → Lexer (List Token)
  | 0 => return [.eof]
  | fuel + 1 => do
    let token ← nextToken unicode size
    if token = .eof then return [.eof] else return token :: (← tokens size fuel)

end Lexer

def tokenize (unicode : Unicode) (src : String) : Except LexError (List Token) :=
  (Lexer.tokens unicode (utf8 src).length (src.toList.length + 1) src.toList).map Prod.fst

end Gems.Query
