import Gems.Lib.Utf8
import Mathlib.Data.Nat.Digits.Defs
import Mathlib.Tactic.IntervalCases

set_option autoImplicit false

namespace Gems.Lib

def hexDigit (b : UInt8) : Option Nat :=
  if 48 ≤ b ∧ b ≤ 57 then some (b.toNat - 48)
  else if 97 ≤ b ∧ b ≤ 102 then some (b.toNat - 87)
  else if 65 ≤ b ∧ b ≤ 70 then some (b.toNat - 55)
  else none

-- One more digit, unless the number outgrows its type.
def hexStep (bits n : Nat) (b : UInt8) : Option Nat :=
  (hexDigit b).bind fun d => if 16 * n + d < 2 ^ bits then some (16 * n + d) else none

-- `from_str_radix` of an unsigned type: the digits may follow a plus sign.
def fromStrRadix16 (bits : Nat) : List UInt8 → Option Nat
  | [] => none
  | b :: rest =>
    if b = 43 then
      if rest = [] then none else rest.foldlM (hexStep bits) 0
    else (b :: rest).foldlM (hexStep bits) 0

-- As many lower-case digits as asked for, of a number that has no more.
def hexText : Nat → Nat → List Char
  | 0, _ => []
  | width + 1, n => hexText width (n / 16) ++ [Nat.digitChar (n % 16)]

inductive HexSpelling : List UInt8 → List UInt8 → Prop
  | nil : HexSpelling [] []
  | cons {a b : UInt8} {x y : Nat} {text bytes : List UInt8} (high : hexDigit a = some x) (low : hexDigit b = some y)
    (rest : HexSpelling text bytes) : HexSpelling (a :: b :: text) (UInt8.ofNat (16 * x + y) :: bytes)

-- The digits as characters.
def charDigit (c : Char) : Option Nat :=
  if 48 ≤ c.toNat ∧ c.toNat ≤ 57 then some (c.toNat - 48)
  else if 97 ≤ c.toNat ∧ c.toNat ≤ 102 then some (c.toNat - 87)
  else if 65 ≤ c.toNat ∧ c.toNat ≤ 70 then some (c.toNat - 55)
  else none

def charStep (bits n : Nat) (c : Char) : Option Nat :=
  (charDigit c).bind fun d => if 16 * n + d < 2 ^ bits then some (16 * n + d) else none

-- The number that digits spell, behind `n`.
def hexFrom (n : Nat) (text : List Char) : Option Nat := text.foldlM (fun n c => (charDigit c).map (16 * n + ·)) n

section Digits

variable {a b : UInt8} {bits n width x y : Nat}

theorem hexDigit_eq_some : hexDigit b = some x ↔
    (48 ≤ b.toNat ∧ b.toNat ≤ 57 ∧ x = b.toNat - 48) ∨ (97 ≤ b.toNat ∧ b.toNat ≤ 102 ∧ x = b.toNat - 87) ∨
      (65 ≤ b.toNat ∧ b.toNat ≤ 70 ∧ x = b.toNat - 55) := by
  simp only [hexDigit, UInt8.le_iff_toNat_le, UInt8.reduceToNat]
  split_ifs <;> simp only [Option.some.injEq, false_iff] <;> omega

theorem hexDigit_lt (digit : hexDigit b = some x) : x < 16 := by
  rw [hexDigit_eq_some] at digit
  omega

theorem hexDigit_ne_plus (digit : hexDigit b = some x) : b ≠ 43 := by
  rintro rfl
  cases digit

theorem hexStep_eq (digit : hexDigit b = some x) (fits : 16 * n + x < 2 ^ bits) :
    hexStep bits n b = some (16 * n + x) := by
  rw [hexStep, digit, Option.bind_some, if_pos fits]

theorem hexDigit_of_step {m : Nat} (step : hexStep bits n b = some m) : ∃ x, hexDigit b = some x ∧ m = 16 * n + x := by
  obtain ⟨x, digit, made⟩ := Option.bind_eq_some_iff.mp step
  split at made
  next => exact ⟨x, digit, (Option.some.inj made).symm⟩
  next => cases made

theorem fromStrRadix16_digits (high : hexDigit a = some x) (low : hexDigit b = some y) :
    fromStrRadix16 8 [a, b] = some (16 * x + y) := by
  have x_lt := hexDigit_lt high
  have y_lt := hexDigit_lt low
  rw [fromStrRadix16, if_neg (hexDigit_ne_plus high), List.foldlM_cons, hexStep_eq high (by omega)]
  simp [hexStep_eq low (show 16 * x + y < 2 ^ 8 by omega)]

theorem fromStrRadix16_signed (low : hexDigit b = some y) : fromStrRadix16 8 [43, b] = some y := by
  have y_lt := hexDigit_lt low
  rw [fromStrRadix16, if_pos rfl, if_neg (by simp), List.foldlM_cons, hexStep_eq low (by omega)]
  simp

theorem of_fromStrRadix16 (read : fromStrRadix16 8 [a, b] = some n) :
    (a = 43 ∨ ∃ x, hexDigit a = some x) ∧ ∃ y, hexDigit b = some y := by
  rw [fromStrRadix16] at read
  split at read
  next plus =>
    rw [if_neg (by simp)] at read
    obtain ⟨m, step, -⟩ := Option.bind_eq_some_iff.mp read
    obtain ⟨y, low, -⟩ := hexDigit_of_step step
    exact ⟨.inl plus, y, low⟩
  next =>
    obtain ⟨m, step, rest⟩ := Option.bind_eq_some_iff.mp read
    obtain ⟨m', step', -⟩ := Option.bind_eq_some_iff.mp rest
    obtain ⟨x, high, -⟩ := hexDigit_of_step step
    obtain ⟨y, low, -⟩ := hexDigit_of_step step'
    exact ⟨.inr ⟨x, high⟩, y, low⟩

theorem HexSpelling.length {text bytes : List UInt8} (spelling : HexSpelling text bytes) :
    text.length = 2 * bytes.length := by
  induction spelling with
  | nil => rfl
  | cons _ _ _ ih =>
    simp only [List.length_cons, ih]
    omega

theorem HexSpelling.unique {text bytes bytes' : List UInt8} (spelling : HexSpelling text bytes)
    (spelling' : HexSpelling text bytes') : bytes = bytes' := by
  induction spelling generalizing bytes' with
  | nil =>
    cases spelling'
    rfl
  | cons high low _ ih =>
    cases spelling' with
    | cons high' low' rest' =>
      obtain rfl := Option.some.inj (high.symm.trans high')
      obtain rfl := Option.some.inj (low.symm.trans low')
      rw [ih rest']

end Digits

section Characters

variable {bits n : Nat} {c : Char} {text : List Char}

theorem charDigit_eq_some {x : Nat} : charDigit c = some x ↔
    (48 ≤ c.toNat ∧ c.toNat ≤ 57 ∧ x = c.toNat - 48) ∨ (97 ≤ c.toNat ∧ c.toNat ≤ 102 ∧ x = c.toNat - 87) ∨
      (65 ≤ c.toNat ∧ c.toNat ≤ 70 ∧ x = c.toNat - 55) := by
  simp only [charDigit]
  split_ifs <;> simp only [Option.some.injEq, false_iff] <;> omega

-- An ASCII character is its own byte, and no byte of another one is a digit or a sign.
theorem utf8EncodeChar_cases (c : Char) : (c.toNat < 128 ∧ String.utf8EncodeChar c = [UInt8.ofNat c.toNat]) ∨
    (128 ≤ c.toNat ∧ ∃ b rest, String.utf8EncodeChar c = b :: rest ∧ 128 ≤ b.toNat) := by
  have bound : c.val.toNat < 0x110000 := by
    rcases c.valid with low | ⟨-, high⟩
    next => exact Nat.lt_trans low (by decide)
    next => exact high
  have value : c.toNat = c.val.toNat := rfl
  have first {n : Nat} (large : 128 ≤ n) (byte : n < 256) : 128 ≤ (UInt8.ofNat n).toNat := by
    rwa [UInt8.toNat_ofNat_of_lt' byte]
  rw [String.utf8EncodeChar, value]
  split_ifs
  next => exact .inl ⟨by omega, rfl⟩
  next => exact .inr ⟨by omega, _, _, rfl, first (by omega) (by omega)⟩
  next => exact .inr ⟨by omega, _, _, rfl, first (by omega) (by omega)⟩
  next => exact .inr ⟨by omega, _, _, rfl, first (by omega) (by omega)⟩

theorem byte_of_mem_encodeChars {text : List Char} {b : UInt8} (mem : b ∈ encodeChars text) (ascii : b.toNat < 128) :
    ∃ c ∈ text, c.toNat = b.toNat := by
  obtain ⟨c, inside, byte⟩ := List.mem_flatMap.mp mem
  refine ⟨c, inside, ?_⟩
  rcases utf8EncodeChar_cases c with ⟨small, one⟩ | ⟨large, first, rest, bytes, high⟩
  · rw [one, List.mem_singleton] at byte
    rw [byte, UInt8.toNat_ofNat_of_lt' (small.trans (by decide))]
  · obtain ⟨first', tail, shape, -, later⟩ := utf8EncodeChar_shape c
    rw [bytes] at byte
    obtain ⟨rfl, rfl⟩ := List.cons.inj (bytes.symm.trans shape)
    rcases List.mem_cons.mp byte with rfl | inside'
    · omega
    · have more := later b inside'
      simp only [isContinuation, Bool.and_eq_true, decide_eq_true_eq, UInt8.le_iff_toNat_le] at more
      exact absurd more.1 (by change ¬ 128 ≤ b.toNat; omega)

theorem foldlM_utf8EncodeChar :
    (String.utf8EncodeChar c).foldlM (hexStep bits) n = charStep bits n c := by
  rcases utf8EncodeChar_cases c with ⟨ascii, bytes⟩ | ⟨large, b, rest, bytes, high⟩
  next =>
    have value : (UInt8.ofNat c.toNat).toNat = c.toNat := UInt8.toNat_ofNat_of_lt' (ascii.trans (by decide))
    have digit : hexDigit (UInt8.ofNat c.toNat) = charDigit c := by
      simp only [hexDigit, charDigit, UInt8.le_iff_toNat_le, UInt8.reduceToNat, value]
    rw [bytes, List.foldlM_cons, hexStep, digit]
    exact bind_pure _
  next =>
    have not_digit : hexDigit b = none := by
      apply Option.eq_none_iff_forall_ne_some.mpr
      intro x digit
      rw [hexDigit_eq_some] at digit
      omega
    have not_char : charDigit c = none := by
      apply Option.eq_none_iff_forall_ne_some.mpr
      intro x digit
      rw [charDigit_eq_some] at digit
      omega
    rw [bytes, List.foldlM_cons, hexStep, not_digit, charStep, not_char]
    rfl

theorem foldlM_encodeChars : (encodeChars text).foldlM (hexStep bits) n = text.foldlM (charStep bits) n := by
  induction text generalizing n with
  | nil => rfl
  | cons c text ih =>
    rw [encodeChars, List.flatMap_cons, List.foldlM_append, foldlM_utf8EncodeChar, List.foldlM_cons]
    congr 1
    funext m
    exact ih

theorem fromStrRadix16_encodeChars :
    fromStrRadix16 bits (encodeChars (c :: text)) =
      if c = '+' then if text = [] then none else text.foldlM (charStep bits) 0
      else (c :: text).foldlM (charStep bits) 0 := by
  rcases utf8EncodeChar_cases c with ⟨ascii, bytes⟩ | ⟨large, b, rest, bytes, high⟩
  next =>
    have value : (UInt8.ofNat c.toNat).toNat = c.toNat := UInt8.toNat_ofNat_of_lt' (ascii.trans (by decide))
    have plus : UInt8.ofNat c.toNat = 43 ↔ c = '+' := by
      rw [← UInt8.toNat_inj, value, Char.ext_iff, ← UInt32.toNat_inj]
      rfl
    have empty : encodeChars text = [] ↔ text = [] := by
      cases text with
      | nil => simp [encodeChars]
      | cons d text =>
        obtain ⟨b, tail, shape, -⟩ := utf8EncodeChar_shape d
        simp [shape]
    have whole := @foldlM_encodeChars bits 0 (c :: text)
    rw [encodeChars_cons, bytes, List.singleton_append] at whole ⊢
    simp only [fromStrRadix16, plus, empty, whole, foldlM_encodeChars]
  next =>
    have not_plus : b ≠ 43 := by
      rintro rfl
      exact absurd high (by decide)
    have no_plus : c ≠ '+' := by
      rintro rfl
      exact absurd large (by decide)
    have whole := @foldlM_encodeChars bits 0 (c :: text)
    rw [encodeChars_cons, bytes, List.cons_append] at whole ⊢
    simp only [fromStrRadix16, not_plus, no_plus, if_false, whole]

theorem hexFrom_cons : hexFrom n (c :: text) = (charDigit c).bind fun d => hexFrom (16 * n + d) text := by
  rw [hexFrom, List.foldlM_cons]
  cases charDigit c <;> rfl

theorem charDigit_lt {x : Nat} (digit : charDigit c = some x) : x < 16 := by
  rw [charDigit_eq_some] at digit
  omega

theorem hexFrom_bounds {m : Nat} (spelled : hexFrom n text = some m) :
    n ≤ m ∧ m < (n + 1) * 16 ^ text.length := by
  induction text generalizing n with
  | nil =>
    cases spelled
    simp
  | cons c text ih =>
    rw [hexFrom_cons] at spelled
    obtain ⟨d, digit, later⟩ := Option.bind_eq_some_iff.mp spelled
    have small := charDigit_lt digit
    have bounds := ih later
    have wider := Nat.mul_le_mul_right (16 ^ text.length) (show 16 * n + d + 1 ≤ (n + 1) * 16 by omega)
    rw [Nat.mul_assoc] at wider
    rw [List.length_cons, Nat.pow_succ']
    omega

theorem foldlM_charStep {m : Nat} (small : m < 2 ^ bits) :
    text.foldlM (charStep bits) n = some m ↔ hexFrom n text = some m := by
  induction text generalizing n with
  | nil => rfl
  | cons c text ih =>
    rw [hexFrom_cons, List.foldlM_cons, charStep]
    cases charDigit c with
    | none => rfl
    | some d =>
      simp only [Option.bind_some]
      split
      next => exact ih
      next large =>
        constructor
        next =>
          intro step
          cases step
        next =>
          intro spelled
          have bounds := hexFrom_bounds spelled
          omega

theorem foldlM_charStep_lt {m : Nat} (positive : n < 2 ^ bits) (read : text.foldlM (charStep bits) n = some m) :
    m < 2 ^ bits := by
  induction text generalizing n with
  | nil =>
    cases read
    exact positive
  | cons c text ih =>
    rw [List.foldlM_cons] at read
    obtain ⟨m', step, later⟩ := Option.bind_eq_some_iff.mp read
    obtain ⟨d, -, made⟩ := Option.bind_eq_some_iff.mp step
    split at made
    next fits =>
      cases made
      exact ih fits later
    next => cases made

theorem fromStrRadix16_iff {m : Nat} : fromStrRadix16 bits (encodeChars (c :: text)) = some m ↔
    m < 2 ^ bits ∧ (hexFrom 0 (c :: text) = some m ∨ c = '+' ∧ text ≠ [] ∧ hexFrom 0 text = some m) := by
  have zero : 0 < 2 ^ bits := Nat.two_pow_pos bits
  rw [fromStrRadix16_encodeChars]
  by_cases plus : c = '+'
  next =>
    have no_digit : hexFrom 0 (c :: text) = none := by rw [plus]; rfl
    rw [if_pos plus, no_digit]
    by_cases empty : text = []
    next => simp [empty]
    next =>
      rw [if_neg empty]
      constructor
      next =>
        intro read
        have small := foldlM_charStep_lt zero read
        exact ⟨small, .inr ⟨plus, empty, (foldlM_charStep small).mp read⟩⟩
      next =>
        rintro ⟨small, spelled | ⟨-, -, spelled⟩⟩
        next => cases spelled
        next => exact (foldlM_charStep small).mpr spelled
  next =>
    rw [if_neg plus]
    constructor
    next =>
      intro read
      have small := foldlM_charStep_lt zero read
      exact ⟨small, .inl ((foldlM_charStep small).mp read)⟩
    next =>
      rintro ⟨small, spelled | ⟨no, -⟩⟩
      next => exact (foldlM_charStep small).mpr spelled
      next => exact absurd no plus

end Characters

section Text

variable {n width : Nat}

theorem hexDigit_digitChar (small : n < 16) :
    ∃ b, String.utf8EncodeChar (Nat.digitChar n) = [b] ∧ hexDigit b = some n := by
  interval_cases n <;> exact ⟨_, rfl, rfl⟩

theorem length_hexText : (hexText width n).length = width := by
  induction width generalizing n with
  | zero => rfl
  | succ width ih => rw [hexText, List.length_append, ih, List.length_singleton]

theorem charDigit_digitChar (small : n < 16) : charDigit (Nat.digitChar n) = some n := by
  interval_cases n <;> rfl

theorem hexFrom_append {m : Nat} {text text' : List Char} :
    hexFrom m (text ++ text') = (hexFrom m text).bind fun m => hexFrom m text' :=
  List.foldlM_append

theorem hexFrom_hexText {m : Nat} (small : n < 16 ^ width) :
    hexFrom m (hexText width n) = some (m * 16 ^ width + n) := by
  induction width generalizing n with
  | zero =>
    rw [Nat.pow_zero] at small
    simp [hexText, hexFrom, Nat.lt_one_iff.mp small]
  | succ width ih =>
    rw [Nat.pow_succ] at small
    rw [hexText, hexFrom_append, ih (by omega), Option.bind_some, hexFrom_cons,
      charDigit_digitChar (Nat.mod_lt n (by decide)), Option.bind_some, Nat.pow_succ]
    simp only [hexFrom, List.foldlM_nil]
    congr 1
    have split := Nat.div_add_mod n 16
    rw [Nat.mul_add, ← Nat.mul_assoc, Nat.mul_comm 16 m, Nat.mul_assoc, Nat.mul_comm 16]
    omega

theorem hexSpelling_hexText (byte : UInt8) : HexSpelling (encodeChars (hexText 2 byte.toNat)) [byte] := by
  obtain ⟨a, written, high⟩ := hexDigit_digitChar (Nat.mod_lt (byte.toNat / 16) (by decide : 0 < 16))
  obtain ⟨b, written', low⟩ := hexDigit_digitChar (Nat.mod_lt byte.toNat (by decide : 0 < 16))
  have small := byte.toNat_lt
  have value : UInt8.ofNat (16 * (byte.toNat / 16 % 16) + byte.toNat % 16) = byte := by
    rw [show 16 * (byte.toNat / 16 % 16) + byte.toNat % 16 = byte.toNat by omega, UInt8.ofNat_toNat]
  have text : encodeChars (hexText 2 byte.toNat) = [a, b] := by
    simp [hexText, encodeChars, written, written']
  have spelled := HexSpelling.cons high low .nil
  rwa [value, ← text] at spelled

end Text

end Gems.Lib
