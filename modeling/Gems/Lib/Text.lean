import Mathlib.Data.List.Basic
import Mathlib.Tactic.IntervalCases

set_option autoImplicit false

namespace Gems.Lib

-- The white space of Unicode.
def isWhitespace (c : Char) : Bool :=
  let n := c.toNat
  (9 ≤ n && n ≤ 13) || n == 32 || n == 0x85 || n == 0xA0 || n == 0x1680 || (0x2000 ≤ n && n ≤ 0x200A) ||
    n == 0x2028 || n == 0x2029 || n == 0x202F || n == 0x205F || n == 0x3000

def trim (text : List Char) : List Char := ((text.dropWhile isWhitespace).reverse.dropWhile isWhitespace).reverse

def decimal (n : Nat) : List Char := Nat.toDigits 10 n

-- `parse` of an unsigned type: the digits may follow a plus sign.
def parseUnsigned (bits : Nat) (text : List Char) : Option Nat :=
  let digits := if text.head? = some '+' then text.tail else text
  if digits = [] ∨ digits.any (fun c => !c.isDigit) ∨ 2 ^ bits ≤ Nat.ofDigitChars 10 digits 0 then none
  else some (Nat.ofDigitChars 10 digits 0)

def commaSeparated : List (List Char) → List Char
  | [] => []
  | [text] => text
  | text :: texts => text ++ ',' :: commaSeparated texts

section Decimal

variable {n bits : Nat} {c : Char}

theorem decimal_isDigit (mem : c ∈ decimal n) : c.isDigit = true :=
  Nat.isDigit_of_mem_toDigits (by decide) (by decide) mem

theorem decimal_ne_nil : decimal n ≠ [] := Nat.toDigits_ne_nil

theorem decimal_value : Nat.ofDigitChars 10 (decimal n) 0 = n := Nat.ofDigitChars_ten_toDigits

theorem isDigit_iff : c.isDigit = true ↔ 48 ≤ c.toNat ∧ c.toNat ≤ 57 := by
  simp only [Char.isDigit, Bool.and_eq_true, decide_eq_true_eq, UInt32.le_iff_toNat_le, ge_iff_le]
  rfl

theorem not_isWhitespace_of_digit (digit : c.isDigit = true) : isWhitespace c = false := by
  rw [isDigit_iff] at digit
  simp [isWhitespace]
  omega

theorem isAlpha_bounds (letter : c.isAlpha = true) : 65 ≤ c.toNat ∧ c.toNat ≤ 122 := by
  change (decide (65 ≤ c.val ∧ c.val ≤ 90) || (decide (97 ≤ c.val) && decide (c.val ≤ 122))) = true at letter
  simp only [Bool.or_eq_true, Bool.and_eq_true, decide_eq_true_eq, UInt32.le_iff_toNat_le] at letter
  change 65 ≤ c.toNat ∧ c.toNat ≤ 90 ∨ 97 ≤ c.toNat ∧ c.toNat ≤ 122 at letter
  omega

theorem not_isWhitespace_of_letter (letter : c.isAlpha = true) : isWhitespace c = false := by
  have bounds := isAlpha_bounds letter
  simp [isWhitespace]
  omega

theorem trim_line {text blank : List Char} (full : text ≠ []) (first : isWhitespace (text.head full) = false)
    (last : isWhitespace (text.getLast full) = false) (rest : ∀ c ∈ blank, isWhitespace c = true) :
    trim (text ++ blank) = text := by
  have front : (text ++ blank).dropWhile isWhitespace = text ++ blank := by
    rw [← List.cons_head_tail full, List.cons_append, List.dropWhile_cons_of_neg]
    rw [first]
    exact Bool.false_ne_true
  have back : text.reverse.dropWhile isWhitespace = text.reverse := by
    rw [← List.dropLast_append_getLast full, List.reverse_append, List.reverse_singleton, List.singleton_append,
      List.dropWhile_cons_of_neg]
    rw [last]
    exact Bool.false_ne_true
  rw [trim, front, List.reverse_append, List.dropWhile_append_of_pos, back, List.reverse_reverse]
  exact fun c mem => rest c (List.mem_reverse.mp mem)

theorem not_isWhitespace_of_decimal (mem : c ∈ decimal n) : isWhitespace c = false :=
  not_isWhitespace_of_digit (decimal_isDigit mem)

theorem trim_decimal : trim (decimal n) = decimal n := by
  have full : decimal n ≠ [] := decimal_ne_nil
  have whole := trim_line full (not_isWhitespace_of_decimal (List.head_mem _))
    (not_isWhitespace_of_decimal (List.getLast_mem _)) fun c none => absurd none (List.not_mem_nil (a := c))
  rwa [List.append_nil] at whole

theorem parseUnsigned_decimal (small : n < 2 ^ bits) : parseUnsigned bits (decimal n) = some n := by
  have unsigned : (decimal n).head? ≠ some '+' := by
    intro plus
    have digit := decimal_isDigit (List.mem_of_head? plus)
    exact absurd digit (by decide)
  have digits : (decimal n).any (fun c => !c.isDigit) = false := by
    rw [List.any_eq_false]
    intro c mem
    simp [decimal_isDigit mem]
  rw [parseUnsigned, if_neg unsigned, if_neg]
  next => rw [decimal_value]
  next =>
    rw [decimal_value, digits]
    simp [decimal_ne_nil, small]

theorem decimal_head (zero : (decimal n).head? = some '0') : n = 0 := by
  induction n using Nat.strongRecOn with
  | ind n ih =>
    by_cases small : n < 10
    next =>
      rw [decimal, Nat.toDigits_of_lt_base small] at zero
      interval_cases n <;> first | rfl | cases zero
    next =>
      have whole : decimal n = decimal (n / 10) ++ [Nat.digitChar (n % 10)] :=
        Nat.toDigits_of_base_le (by decide) (by omega)
      rw [whole, List.head?_append_of_ne_nil _ decimal_ne_nil] at zero
      have none := ih (n / 10) (by omega) zero
      omega

end Decimal

end Gems.Lib
