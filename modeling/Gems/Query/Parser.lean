import Gems.Query
import Gems.Query.Lexer

set_option autoImplicit false

namespace Gems.Query

open Lib

inductive ParseError where
  | lex (e : LexError)
  | trailingInput (found : Token)
  | expectedKeyword (kw : String) (found : Token)
  | expected (token found : Token)
  | expectedLimit (found : Token)
  | expectedIdentifier (found : Token)
  | nestingDepth
  | expectedOperator (field : String) (found : Token)
  | expectedLiteral (found : Token)
  deriving DecidableEq, Repr

abbrev Parser := Scanner Token ParseError

def maxExprDepth : Nat := 64

def ParseError.display (graphic : Graphic) (e : ParseError) : String :=
  "query parse error: " ++ match e with
    | .lex e => e.display
    | .trailingInput found => "unexpected trailing input: " ++ found.debug graphic
    | .expectedKeyword kw found => "expected keyword " ++ kw ++ ", found " ++ found.debug graphic
    | .expected token found => "expected " ++ token.debug graphic ++ ", found " ++ found.debug graphic
    | .expectedLimit found => "expected a non-negative integer after LIMIT, found " ++ found.debug graphic
    | .expectedIdentifier found => "expected identifier, found " ++ found.debug graphic
    | .nestingDepth => "expression nesting exceeds the maximum depth of " ++ String.ofList (decimal maxExprDepth)
    | .expectedOperator field found =>
      "expected a comparison operator or IN after field '" ++ field ++ "', found " ++ found.debug graphic
    | .expectedLiteral found => "expected a literal, found " ++ found.debug graphic

namespace Parser

open Scanner

def peek : Parser Token := fun tokens => .ok (tokens.headD .eof, tokens)

@[simp] theorem peek_bind {A : Type} {f : Token → Parser A} {token : Token} {rest : List Token} :
    (peek >>= f) (token :: rest) = f token (token :: rest) := rfl

-- The last token stays.
def advance : Parser Token := fun
  | token :: next :: rest => .ok (token, next :: rest)
  | tokens => .ok (tokens.headD .eof, tokens)

def expectEof : Parser Unit := do
  let found ← peek
  if found = .eof then return () else fail (.trailingInput found)

def isKeyword (kw : String) : Token → Bool
  | .ident s => eqIgnoreAsciiCase s kw
  | _ => false

def eatKeyword (kw : String) : Parser Bool := do
  if isKeyword kw (← peek) then
    let _ ← advance
    return true
  else return false

def expectKeyword (kw : String) : Parser Unit := do
  if ← eatKeyword kw then return () else fail (.expectedKeyword kw (← peek))

def expect (token : Token) : Parser Unit := do
  let found ← peek
  if found = token then
    let _ ← advance
    return ()
  else fail (.expected token found)

def parseIdent : Parser String := do
  match ← advance with
  | .ident s => return s
  | other => fail (.expectedIdentifier other)

section Lists

variable {A : Type}

-- Every turn takes two tokens, so `fuel` is never used up.
def moreSeparated (separator : Token) (item : Parser A) : Nat → Parser (List A)
  | 0 => return []
  | fuel + 1 => do
    if (← peek) = separator then
      let _ ← advance
      let a ← item
      return a :: (← moreSeparated separator item fuel)
    else return []

def separated (separator : Token) (item : Parser A) : Parser (List A) := do
  let tokens ← get
  let first ← item
  return first :: (← moreSeparated separator item tokens.length)

-- The operands so far are on the left.
def moreChained (kw : String) (join : A → A → A) (item : Parser A) : Nat → A → Parser A
  | 0, left => return left
  | fuel + 1, left => do
    if ← eatKeyword kw then
      let right ← item
      moreChained kw join item fuel (join left right)
    else return left

def chained (kw : String) (join : A → A → A) (item : Parser A) : Parser A := do
  let tokens ← get
  let first ← item
  moreChained kw join item tokens.length first

end Lists

def parseField : Parser String := do
  let path ← separated .dot parseIdent
  return ".".intercalate path

def parseSelectList : Parser SelectList := do
  if (← peek) = .star then
    let _ ← advance
    return .all
  else return .fields (← separated .comma parseField)

def parseLiteral : Parser Literal := do
  match ← advance with
  | .str s => return .str s
  | .num n => return .num n.bits
  | .ident s =>
    if eqIgnoreAsciiCase s "true" then return .bool true
    else if eqIgnoreAsciiCase s "false" then return .bool false
    else return .ident s
  | other => fail (.expectedLiteral other)

def compareOp : Token → Option CompareOp
  | .eq => some .eq
  | .neq => some .neq
  | .lt => some .lt
  | .lte => some .lte
  | .gt => some .gt
  | .gte => some .gte
  | _ => none

def parsePredicate : Parser Expr := do
  let field ← parseField
  if ← eatKeyword "IN" then
    expect .lParen
    let values ← separated .comma parseLiteral
    expect .rParen
    return .in_ field values
  else
    let found ← advance
    match compareOp found with
    | some op => return .compare field op (← parseLiteral)
    | none => fail (.expectedOperator field found)

def parseAndExpr (unary : Parser Expr) : Parser Expr := chained "AND" .and unary

def parseOrExpr (unary : Parser Expr) : Parser Expr := chained "OR" .or (parseAndExpr unary)

-- `inner` reads the operands one level deeper, when the nesting may go there.
def parseUnary (inner : Option (Parser Expr)) : Parser Expr := do
  let token ← peek
  if isKeyword "NOT" token then
    match inner with
    | none => fail .nestingDepth
    | some unary =>
      let _ ← advance
      return .not (← unary)
  else if token = .lParen then
    match inner with
    | none => fail .nestingDepth
    | some unary =>
      let _ ← advance
      let expr ← parseOrExpr unary
      expect .rParen
      return expr
  else parsePredicate

-- `room` is `MAX_EXPR_DEPTH - expr_depth`.
def parseUnaryExpr : Nat → Parser Expr
  | 0 => parseUnary none
  | room + 1 => parseUnary (some (parseUnaryExpr room))

def parseOrderItem : Parser OrderItem := do
  let field ← parseField
  if ← eatKeyword "DESC" then return ⟨field, true⟩
  else
    let _ ← eatKeyword "ASC"
    return ⟨field, false⟩

def parseLimit : Parser UInt64 := do
  match ← advance with
  | .num n => if F64.le (.ofInt 0) n && n.isWhole then return n.toU64 else fail (.expectedLimit (.num n))
  | other => fail (.expectedLimit other)

def parseFilter : Parser (Option Expr) := do
  if ← eatKeyword "WHERE" then return some (← parseOrExpr (parseUnaryExpr maxExprDepth)) else return none

def parseOrderBy : Parser (List OrderItem) := do
  if ← eatKeyword "ORDER" then
    expectKeyword "BY"
    separated .comma parseOrderItem
  else return []

def parseLimitClause : Parser (Option UInt64) := do
  if ← eatKeyword "LIMIT" then return some (← parseLimit) else return none

def parseQuery : Parser Query := do
  expectKeyword "SELECT"
  let select ← parseSelectList
  expectKeyword "FROM"
  let from_ ← parseIdent
  let filter ← parseFilter
  let orderBy ← parseOrderBy
  let limit ← parseLimitClause
  return { select, from_, filter, orderBy, limit }

def parseAll : Parser Query := do
  let query ← parseQuery
  expectEof
  return query

end Parser

def parse (unicode : Unicode) (src : String) : Except ParseError Query :=
  match tokenize unicode src with
  | .error e => .error (.lex e)
  | .ok tokens => (Parser.parseAll tokens).map Prod.fst

end Gems.Query
