import Gems.Lib.Float64

set_option autoImplicit false

namespace Gems.Lib

/-- The characters that a debug text shows as they are: the printable ones but those that extend
another. The tables come with the language; this is what is known of them on ASCII. -/
structure Graphic where
  isGraphic : Char → Bool
  ascii_graphic : ∀ c, c.toNat < 128 → isGraphic c = (32 ≤ c.toNat && c.toNat < 127)

def Graphic.ascii : Graphic where
  isGraphic c := 32 ≤ c.toNat && c.toNat < 127
  ascii_graphic _ _ := rfl

section Chars

variable (graphic : Graphic)

def escapeDebug (quote c : Char) : List Char :=
  if c = '\x00' then ['\\', '0']
  else if c = '\t' then ['\\', 't']
  else if c = '\r' then ['\\', 'r']
  else if c = '\n' then ['\\', 'n']
  else if c = '\\' ∨ c = quote then ['\\', c]
  else if graphic.isGraphic c then [c]
  else ['\\', 'u', '\x7b'] ++ Nat.toDigits 16 c.toNat ++ ['\x7d']

def debugChar (c : Char) : String := "'" ++ String.ofList (escapeDebug graphic '\'' c) ++ "'"

def debugText (text : String) : String :=
  "\"" ++ String.ofList (text.toList.flatMap (escapeDebug graphic '"')) ++ "\""

def debugOption : Option Char → String
  | none => "None"
  | some c => "Some(" ++ debugChar graphic c ++ ")"

example : ["it's", "a\t\"b\"", "\x7f"].map (debugText .ascii) =
    ["\"it's\"", "\"a\\t\\\"b\\\"\"", "\"\\u\x7b7f\x7d\""] := by
  decide +kernel

end Chars

section Numbers

-- `digits * 10 ^ power` with one digit before the point.
def exponential (digits : ℕ) (power : ℤ) : List Char :=
  let text := decimal digits
  let exponent := power + text.length - 1
  let behind := (text.tail.reverse.dropWhile (· == '0')).reverse
  let point := if behind = [] then [] else ['.']
  let minus := if exponent < 0 then ['-'] else []
  text.take 1 ++ point ++ behind ++ 'e' :: minus ++ decimal exponent.natAbs

-- `Debug` of a double: an exponent below 1e-4 and from 1e16 on, else a digit behind the point.
def debugF64 (x : F64) : String :=
  let small := x.magnitude ≠ 0 ∧ x.magnitude < F64.nearest (1 / 10 ^ 4)
  let large := F64.nearest (10 ^ 16) ≤ x.magnitude
  let sign := if x.negative then ['-'] else []
  let text := displayF64 x
  String.ofList <|
    if ¬x.isFinite then text
    else if small ∨ large then sign ++ ((shortest x.magnitude).elim [] fun found => exponential found.1 found.2)
    else if text.contains '.' then text
    else text ++ ['.', '0']

example : [F64.ofInt 5, .ofParts true (F64.nearest (3 / 2)), .ofInt (10 ^ 16), .ofParts false (F64.nearest (1 / 40000)),
    .ofParts false F64.infinity].map debugF64 = ["5.0", "-1.5", "1e16", "2.5e-5", "inf"] := by
  decide +kernel

end Numbers

end Gems.Lib
