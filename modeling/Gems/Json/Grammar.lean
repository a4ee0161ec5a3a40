import Gems.Json.Parse

set_option autoImplicit false

namespace Gems.Json

open Lib

section Text

-- The white space of RFC 8259.
def isGap (c : Char) : Bool := c == ' ' || c == '\t' || c == '\n' || c == '\r'

def Gap (text : List Char) : Prop := ∀ c ∈ text, isGap c = true

def Digits (text : List Char) : Prop := ∀ c ∈ text, c.isDigit = true

structure Quad (hex : List Char) (code : Nat) : Prop where
  four : hex.length = 4
  spelled : hexFrom 0 hex = some code

def surrogate (code : Nat) : Bool := 0xD800 ≤ code && code ≤ 0xDFFF

-- A character behind a backslash and what it stands for.
def escapes : List (Char × Char) :=
  [('"', '"'), ('\\', '\\'), ('/', '/'), ('b', '\x08'), ('f', '\x0c'), ('n', '\n'), ('r', '\r'), ('t', '\t')]

/-- The ways RFC 8259 has to write one character of a string, and whether surrogates are used.
A surrogate without its other half stands for no character. -/
inductive CharText : List Char → Char → Bool → Prop
  | plain {c : Char} (printed : 0x20 ≤ c.toNat) (quote : c ≠ '"') (slash : c ≠ '\\') : CharText [c] c false
  | short {e c : Char} (escape : (e, c) ∈ escapes) : CharText ['\\', e] c false
  | code {hex : List Char} {code : Nat} (quad : Quad hex code) (scalar : surrogate code = false) :
    CharText ('\\' :: 'u' :: hex) (Char.ofNat code) false
  | pair {hex hex' : List Char} {high low : Nat} (quad : Quad hex high) (quad' : Quad hex' low)
    (is_high : 0xD800 ≤ high ∧ high < 0xDC00) (is_low : 0xDC00 ≤ low ∧ low ≤ 0xDFFF) :
    CharText ('\\' :: 'u' :: (hex ++ '\\' :: 'u' :: hex'))
      (Char.ofNat (0x10000 + (high - 0xD800) * 0x400 + (low - 0xDC00))) true
  | lone {hex : List Char} {code : Nat} (quad : Quad hex code) (half : surrogate code = true) :
    CharText ('\\' :: 'u' :: hex) '\uFFFD' true

inductive CharsText : List Char → List Char → Bool → Prop
  | nil : CharsText [] [] false
  | cons {text body chars : List Char} {c : Char} {pairs pairs' : Bool} (first : CharText text c pairs)
    (more : CharsText body chars pairs') : CharsText (text ++ body) (c :: chars) (pairs || pairs')

inductive StringText : List Char → String → Bool → Prop
  | quoted {body chars : List Char} {pairs : Bool} (inside : CharsText body chars pairs) :
    StringText ('"' :: (body ++ ['"'])) (String.ofList chars) pairs

inductive Fraction : List Char → List Char → Prop
  | none : Fraction [] []
  | some {part : List Char} (digits : Digits part) (nonempty : part ≠ []) : Fraction ('.' :: part) part

inductive Exponent : List Char → ℤ → Prop
  | none : Exponent [] 0
  | plain {mark : Char} {digits : List Char} (letter : mark = 'e' ∨ mark = 'E') (all : Digits digits)
    (nonempty : digits ≠ []) : Exponent (mark :: digits) (Nat.ofDigitChars 10 digits 0)
  | plus {mark : Char} {digits : List Char} (letter : mark = 'e' ∨ mark = 'E') (all : Digits digits)
    (nonempty : digits ≠ []) : Exponent (mark :: '+' :: digits) (Nat.ofDigitChars 10 digits 0)
  | minus {mark : Char} {digits : List Char} (letter : mark = 'e' ∨ mark = 'E') (all : Digits digits)
    (nonempty : digits ≠ []) : Exponent (mark :: '-' :: digits) (-(Nat.ofDigitChars 10 digits 0 : ℤ))

-- No zero in front of other digits.
def Whole (whole : List Char) : Prop := Digits whole ∧ whole ≠ [] ∧ (whole.head? = some '0' → whole = ['0'])

inductive NumberText : List Char → F64 → Prop
  | positive {whole fraction part exponent : List Char} {e : ℤ}
      (digits : Whole whole) (pointed : Fraction fraction part)
    (raised : Exponent exponent e) :
    NumberText (whole ++ (fraction ++ exponent)) (.ofParts false (F64.nearest (numeral whole part e)))
  | negative {whole fraction part exponent : List Char} {e : ℤ}
      (digits : Whole whole) (pointed : Fraction fraction part)
    (raised : Exponent exponent e) :
    NumberText ('-' :: (whole ++ (fraction ++ exponent))) (.ofParts true (F64.nearest (numeral whole part e)))

structure Element where
  before : List Char
  body : List Char
  after : List Char
  value : Value
  pairs : Bool

def Element.text (e : Element) : List Char := e.before ++ (e.body ++ e.after)

structure Element.Spaced (e : Element) : Prop where
  before : Gap e.before
  after : Gap e.after

structure Member where
  before : List Char
  keyText : List Char
  between : List Char
  key : String
  keyPairs : Bool
  element : Element

def Member.text (m : Member) : List Char := m.before ++ (m.keyText ++ (m.between ++ ':' :: m.element.text))

def Member.entry (m : Member) : String × Value := (m.key, m.element.value)

structure Member.Spaced (m : Member) : Prop where
  before : Gap m.before
  between : Gap m.between
  key : StringText m.keyText m.key m.keyPairs
  element : m.element.Spaced

/-- The texts of RFC 8259 whose nesting is at most `room`, what they stand for, and whether one of
their strings uses surrogates. -/
inductive ValueText : Nat → List Char → Value → Bool → Prop
  | null {room : Nat} : ValueText room "null".toList .null false
  | true {room : Nat} : ValueText room "true".toList (.bool true) false
  | false {room : Nat} : ValueText room "false".toList (.bool false) false
  | number {room : Nat} {text : List Char} {n : F64} (numeral : NumberText text n) :
      ValueText room text (.number n) false
  | string {room : Nat} {text : List Char} {s : String} {pairs : Bool} (quoted : StringText text s pairs) :
    ValueText room text (.string s) pairs
  | emptyArray {room : Nat} {gap : List Char} (space : Gap gap) :
    ValueText (room + 1) ('[' :: (gap ++ [']'])) (.array []) false
  | array {room : Nat} {items : List Element} (nonempty : items ≠ []) (spaced : ∀ e ∈ items, e.Spaced)
    (each : ∀ e ∈ items, ValueText room e.body e.value e.pairs) :
    ValueText (room + 1) ('[' :: (commaSeparated (items.map Element.text) ++ [']']))
      (.array (items.map Element.value)) (items.any Element.pairs)
  | emptyObject {room : Nat} {gap : List Char} (space : Gap gap) :
    ValueText (room + 1) ('{' :: (gap ++ ['}'])) (.object []) false
  | object {room : Nat} {members : List Member} (nonempty : members ≠ []) (spaced : ∀ m ∈ members, m.Spaced)
    (each : ∀ m ∈ members, ValueText room m.element.body m.element.value m.element.pairs) :
    ValueText (room + 1) ('{' :: (commaSeparated (members.map Member.text) ++ ['}']))
      (.object (members.map Member.entry)) (members.any fun m => m.keyPairs || m.element.pairs)

/-- A whole RFC 8259 text. -/
inductive JsonText : List Char → Value → Bool → Prop
  | spaced {before body after : List Char} {v : Value} {pairs : Bool} (gap : Gap before) (gap' : Gap after)
    (value : ValueText maxNestingDepth body v pairs) : JsonText (before ++ (body ++ after)) v pairs

end Text

section Quads

variable {hex : List Char} {code : Nat}

theorem Quad.small (quad : Quad hex code) : code < 65536 := by
  have bounds := hexFrom_bounds quad.spelled
  rw [quad.four] at bounds
  omega

theorem Quad.read (quad : Quad hex code) : fromStrRadix16 32 (encodeChars hex) = some code := by
  have small := quad.small
  have four := quad.four
  cases hex with
  | nil => cases four
  | cons c hex => exact fromStrRadix16_iff.mpr ⟨by omega, .inl quad.spelled⟩

theorem Quad.isValidChar_iff (quad : Quad hex code) : code.isValidChar ↔ surrogate code = false := by
  have small := quad.small
  simp only [Nat.isValidChar, surrogate, Bool.and_eq_false_iff, decide_eq_false_iff_not]
  omega

end Quads

end Gems.Json
