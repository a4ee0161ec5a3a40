import Gems.Lib.Text
import Mathlib.Data.Int.Log
import Mathlib.Data.Rat.Floor
import Mathlib.Algebra.Order.Archimedean.Basic
import Mathlib.Tactic.Linarith
import Mathlib.Tactic.NormNum
import Mathlib.Tactic.Ring
import Mathlib.Tactic.FieldSimp

set_option autoImplicit false

namespace Gems.Lib

-- The nearest whole number, the even one of two.
def roundEven (q : ℚ) : ℕ :=
  let below := ⌊q⌋₊
  if q - below < 1 / 2 then below else if 1 / 2 < q - below then below + 1 else below + below % 2

/-- A number in double precision, by its bits. -/
structure F64 where
  bits : UInt64
  deriving DecidableEq, Repr

namespace F64

-- Everything but the sign; the larger magnitude is the larger number, up to infinity, and what
-- is above is no number.
def magnitude (x : F64) : ℕ := x.bits.toNat % 2 ^ 63

def infinity : ℕ := 2047 * 2 ^ 52

def negative (x : F64) : Bool := 2 ^ 63 ≤ x.bits.toNat

def isNan (x : F64) : Bool := infinity < x.magnitude

def isFinite (x : F64) : Bool := x.magnitude < infinity

def ofParts (negative : Bool) (magnitude : ℕ) : F64 :=
  ⟨.ofNat (if negative then 2 ^ 63 + magnitude else magnitude)⟩

def nan : F64 := ofParts false (infinity + 2 ^ 51)

def significand (magnitude : ℕ) : ℕ :=
  if magnitude / 2 ^ 52 = 0 then magnitude else 2 ^ 52 + magnitude % 2 ^ 52

def value (magnitude : ℕ) : ℚ := significand magnitude * 2 ^ ((max (magnitude / 2 ^ 52) 1 : ℕ) - 1075 : ℤ)

-- The magnitude of the nearest number.
def nearest (q : ℚ) : ℕ :=
  if q = 0 then 0
  else
    let exponent := max (Int.log 2 q - 52) (-1074)
    min infinity (roundEven (q / 2 ^ exponent) + (exponent + 1074).toNat * 2 ^ 52)

-- `as f64` of a whole number.
def ofInt (n : ℤ) : F64 := ofParts (n < 0) (nearest n.natAbs)

-- The order of numbers; the two zeros are one.
def key (x : F64) : ℤ := if x.negative then -x.magnitude else x.magnitude

def le (x y : F64) : Bool := !x.isNan && !y.isNan && x.key ≤ y.key

def eq (x y : F64) : Bool := !x.isNan && !y.isNan && x.key == y.key

-- `as i64`, which saturates.
def toI64 (x : F64) : ℤ :=
  let whole : ℤ := if x.isFinite then ⌊value x.magnitude⌋₊ else 2 ^ 63
  if x.isNan then 0 else if x.negative then max (-2 ^ 63) (-whole) else min (2 ^ 63 - 1) whole

-- `as u64`
def toU64 (x : F64) : UInt64 :=
  let whole : ℕ := if x.isFinite then ⌊value x.magnitude⌋₊ else 2 ^ 64
  if x.isNan then 0 else if x.negative then 0 else .ofNat (min (2 ^ 64 - 1) whole)

-- `fract() == 0.0`
def isWhole (x : F64) : Bool := x.isFinite && (⌊value x.magnitude⌋₊ : ℚ) == value x.magnitude

-- `abs() < bound`
def absBelow (x : F64) (bound : ℚ) : Bool := x.isFinite && value x.magnitude < bound

end F64

section Parse

-- A sign, which may be missing.
def unsigned (text : List Char) : List Char :=
  if text.head? = some '-' ∨ text.head? = some '+' then text.tail else text

def parseExponent : List Char → Option ℤ
  | [] => some 0
  | c :: text =>
    let digits := unsigned text
    if (c = 'e' ∨ c = 'E') ∧ digits ≠ [] ∧ digits.all Char.isDigit then
      some (if text.head? = some '-' then -(Nat.ofDigitChars 10 digits 0 : ℤ) else Nat.ofDigitChars 10 digits 0)
    else none

def numeral (whole part : List Char) (e : ℤ) : ℚ := Nat.ofDigitChars 10 (whole ++ part) 0 * 10 ^ (e - part.length)

def parseDecimal (text : List Char) : Option ℚ :=
  let whole := text.takeWhile Char.isDigit
  let rest := text.dropWhile Char.isDigit
  let pointed := rest.head? = some '.'
  let part := if pointed then rest.tail.takeWhile Char.isDigit else []
  let rest := if pointed then rest.tail.dropWhile Char.isDigit else rest
  if whole = [] ∧ part = [] then none
  else (parseExponent rest).map (numeral whole part)

-- `parse` of a double.
def parseF64 (text : List Char) : Option F64 :=
  let negative := text.head? = some '-'
  let word := String.ofList ((unsigned text).map Char.toLower)
  if word = "nan" then some (.ofParts negative F64.nan.magnitude)
  else if word = "inf" ∨ word = "infinity" then some (.ofParts negative F64.infinity)
  else (parseDecimal (unsigned text)).map fun q => .ofParts negative (F64.nearest q)

end Parse

section Display

-- The closest number of `k` digits, when it reads back.
def shortestOf (magnitude k : ℕ) : Option (ℕ × ℤ) :=
  let q := F64.value magnitude
  let power := Int.log 10 q + 1 - k
  let below := ⌊q / 10 ^ power⌋₊
  let closer := if q / 10 ^ power - below < 1 / 2 then [below, below + 1] else [below + 1, below]
  (closer.find? fun (digits : ℕ) => F64.nearest (digits * 10 ^ power) = magnitude).map fun digits => (digits, power)

-- The fewest digits that read back.
def shortest (magnitude : ℕ) : Option (ℕ × ℤ) := (List.range 17).findSome? fun k => shortestOf magnitude (k + 1)

-- Written out, without an exponent.
def positional (digits : ℕ) (power : ℤ) : List Char :=
  let text := decimal digits
  let behind := (-power).toNat
  if 0 ≤ power then text ++ List.replicate power.toNat '0'
  else if behind < text.length then text.take (text.length - behind) ++ '.' :: text.drop (text.length - behind)
  else '0' :: '.' :: List.replicate (behind - text.length) '0' ++ text

-- `Display` of a double.
def displayF64 (x : F64) : List Char :=
  let sign := if x.negative then ['-'] else []
  if x.isNan then "NaN".toList
  else if x.magnitude = F64.infinity then sign ++ "inf".toList
  else if x.magnitude = 0 then sign ++ ['0']
  else sign ++ ((shortest x.magnitude).map fun (digits, power) => positional digits power).getD []

end Display

section Whole

variable {n m : ℕ}

theorem roundEven_natCast (n : ℕ) : roundEven n = n := by simp [roundEven]

theorem floor_le_roundEven (q : ℚ) : ⌊q⌋₊ ≤ roundEven q := by
  simp only [roundEven]
  split_ifs <;> omega

namespace F64

theorem log_le (positive : 0 < n) (small : n < 2 ^ 53) : Nat.log 2 n ≤ 52 :=
  Nat.lt_succ_iff.mp ((Nat.log_lt_iff_lt_pow Nat.one_lt_two positive.ne').mpr small)

theorem significand_bounds (positive : 0 < n) (small : n < 2 ^ 53) :
    2 ^ 52 ≤ n * 2 ^ (52 - Nat.log 2 n) ∧ n * 2 ^ (52 - Nat.log 2 n) < 2 ^ 53 := by
  have low : 2 ^ Nat.log 2 n ≤ n := Nat.pow_log_le_self 2 positive.ne'
  have high : n < 2 ^ (Nat.log 2 n + 1) := Nat.lt_pow_succ_log_self Nat.one_lt_two n
  have places := log_le positive small
  constructor
  next =>
    calc 2 ^ 52 = 2 ^ Nat.log 2 n * 2 ^ (52 - Nat.log 2 n) := by
          rw [← Nat.pow_add, Nat.add_sub_cancel' places]
      _ ≤ n * 2 ^ (52 - Nat.log 2 n) := Nat.mul_le_mul_right _ low
  next =>
    calc n * 2 ^ (52 - Nat.log 2 n) < 2 ^ (Nat.log 2 n + 1) * 2 ^ (52 - Nat.log 2 n) :=
          Nat.mul_lt_mul_of_pos_right high (Nat.two_pow_pos _)
      _ = 2 ^ 53 := by rw [← Nat.pow_add, show Nat.log 2 n + 1 + (52 - Nat.log 2 n) = 53 by omega]

theorem nearest_natCast (positive : 0 < n) (small : n < 2 ^ 53) :
    nearest n = n * 2 ^ (52 - Nat.log 2 n) + (Nat.log 2 n + 1022) * 2 ^ 52 := by
  have places := log_le positive small
  have bounds := significand_bounds positive small
  have exponent : max (Int.log 2 (n : ℚ) - 52) (-1074) = -((52 - Nat.log 2 n : ℕ) : ℤ) := by
    rw [Int.log_natCast]
    omega
  have scaled : (n : ℚ) / 2 ^ (-((52 - Nat.log 2 n : ℕ) : ℤ)) = (n * 2 ^ (52 - Nat.log 2 n) : ℕ) := by
    rw [zpow_neg, zpow_natCast, div_inv_eq_mul]
    push_cast
    rfl
  have shift : (-((52 - Nat.log 2 n : ℕ) : ℤ) + 1074).toNat = Nat.log 2 n + 1022 := by omega
  rw [nearest, if_neg (by exact_mod_cast positive.ne')]
  dsimp only
  rw [exponent, scaled, roundEven_natCast, shift, infinity, Nat.min_eq_right]
  omega

theorem nearest_zero : nearest 0 = 0 := if_pos rfl

theorem nearest_le_infinity (q : ℚ) : nearest q ≤ infinity := by
  rw [nearest]
  split
  next => exact Nat.zero_le _
  next => exact Nat.min_le_left _ _

-- Whole numbers that fit the significand are exact.
theorem value_nearest (small : n < 2 ^ 53) : value (nearest n) = n := by
  rcases Nat.eq_zero_or_pos n with rfl | positive
  next => simp [nearest_zero, value, significand]
  have places := log_le positive small
  have bounds := significand_bounds positive small
  have quotient : nearest n / 2 ^ 52 = Nat.log 2 n + 1023 := by
    rw [nearest_natCast positive small]
    omega
  have whole : significand (nearest n) = n * 2 ^ (52 - Nat.log 2 n) := by
    rw [significand, quotient, if_neg (by omega), nearest_natCast positive small]
    omega
  have exponent : ((max (Nat.log 2 n + 1023) 1 : ℕ) - 1075 : ℤ) = -((52 - Nat.log 2 n : ℕ) : ℤ) := by omega
  have pow : ((2 : ℚ) ^ (52 - Nat.log 2 n)) ≠ 0 := by positivity
  rw [value, whole, quotient, exponent, zpow_neg, zpow_natCast]
  push_cast
  rw [mul_inv_cancel_right₀ pow]

theorem nearest_lt (small : n < 2 ^ 53) : nearest n < 1076 * 2 ^ 52 := by
  rcases Nat.eq_zero_or_pos n with rfl | positive
  next => simp [nearest_zero]
  have places := log_le positive small
  have bounds := significand_bounds positive small
  rw [nearest_natCast positive small]
  omega

theorem le_nearest (large : 2 ^ 53 ≤ n) : 1076 * 2 ^ 52 ≤ nearest n := by
  have positive : 0 < n := by omega
  have places : 53 ≤ Nat.log 2 n := Nat.le_log_of_pow_le Nat.one_lt_two large
  have exponent : max (Int.log 2 (n : ℚ) - 52) (-1074) = ((Nat.log 2 n - 52 : ℕ) : ℤ) := by
    rw [Int.log_natCast]
    omega
  have low : 2 ^ Nat.log 2 n ≤ n := Nat.pow_log_le_self 2 positive.ne'
  have scaled : 2 ^ 52 ≤ ⌊(n : ℚ) / 2 ^ ((Nat.log 2 n - 52 : ℕ) : ℤ)⌋₊ := by
    apply Nat.le_floor
    rw [zpow_natCast, le_div_iff₀ (by positivity)]
    have product : 2 ^ 52 * 2 ^ (Nat.log 2 n - 52) ≤ n := by
      rwa [← Nat.pow_add, Nat.add_sub_cancel' (by omega)]
    exact_mod_cast product
  have rounded := floor_le_roundEven ((n : ℚ) / 2 ^ ((Nat.log 2 n - 52 : ℕ) : ℤ))
  rw [nearest, if_neg (by exact_mod_cast positive.ne')]
  dsimp only
  rw [exponent, infinity]
  omega

theorem nearest_injective (small : n < 2 ^ 53) (same : nearest m = nearest n) : m = n := by
  by_cases fits : m < 2 ^ 53
  next =>
    have values : (m : ℚ) = n := by rw [← value_nearest fits, same, value_nearest small]
    exact_mod_cast values
  next =>
    have low := le_nearest (not_lt.mp fits)
    have high := nearest_lt small
    omega

theorem nearest_lt_nearest (less : n < m) (small : m < 2 ^ 53) : nearest n < nearest m := by
  have bounds := significand_bounds (by omega) small
  rcases Nat.eq_zero_or_pos n with rfl | positive
  next =>
    rw [Nat.cast_zero, nearest_zero, nearest_natCast less small]
    omega
  have bounds' := significand_bounds positive (less.trans small)
  rw [nearest_natCast positive (less.trans small), nearest_natCast (by omega) small]
  rcases Nat.lt_or_eq_of_le (Nat.log_mono_right (b := 2) less.le) with shorter | same
  next => omega
  next =>
    have scaled := Nat.mul_lt_mul_of_pos_right less (Nat.two_pow_pos (52 - Nat.log 2 m))
    rw [same]
    omega

theorem nearest_le_nearest_iff (small : n < 2 ^ 53) : nearest n ≤ nearest m ↔ n ≤ m := by
  constructor
  next =>
    intro le
    by_contra less
    exact absurd (nearest_lt_nearest (not_le.mp less) small) (not_lt.mpr le)
  next =>
    intro le
    by_cases fits : m < 2 ^ 53
    next =>
      rcases Nat.lt_or_eq_of_le le with less | rfl
      next => exact (nearest_lt_nearest less fits).le
      next => exact le_refl _
    next => exact (nearest_lt small).le.trans (le_nearest (not_lt.mp fits))

end F64

end Whole

section Numerals

variable {text whole part rest digits : List Char} {c sign : Char} {e : ℤ}

theorem takeWhile_digits (all : ∀ c ∈ digits, c.isDigit = true) (stop : rest.takeWhile Char.isDigit = []) :
    (digits ++ rest).takeWhile Char.isDigit = digits := by
  rw [List.takeWhile_append_of_pos all, stop, List.append_nil]

theorem dropWhile_digits (all : ∀ c ∈ digits, c.isDigit = true) (stop : rest.takeWhile Char.isDigit = []) :
    (digits ++ rest).dropWhile Char.isDigit = rest := by
  have split := List.takeWhile_append_dropWhile (p := Char.isDigit) (l := rest)
  rw [stop, List.nil_append] at split
  rw [List.dropWhile_append_of_pos all, split]

theorem stop_of_parseExponent (read : parseExponent rest = some e) :
    rest.takeWhile Char.isDigit = [] ∧ rest.head? ≠ some '.' := by
  cases rest with
  | nil => exact ⟨rfl, by simp⟩
  | cons c text =>
    simp only [parseExponent] at read
    split at read
    next found =>
      rcases found.1 with rfl | rfl
      all_goals exact ⟨rfl, by simp⟩
    next => cases read

theorem parseDecimal_whole (all : ∀ c ∈ whole, c.isDigit = true) (some_digit : whole ≠ [])
    (read : parseExponent rest = some e) :
    parseDecimal (whole ++ rest) = some (numeral whole [] e) := by
  have stop := stop_of_parseExponent read
  simp [parseDecimal, takeWhile_digits all stop.1, dropWhile_digits all stop.1, stop.2, some_digit, read]

theorem parseDecimal_pointed (all : ∀ c ∈ whole, c.isDigit = true) (all' : ∀ c ∈ part, c.isDigit = true)
    (some_digit : whole ≠ []) (read : parseExponent rest = some e) :
    parseDecimal (whole ++ '.' :: (part ++ rest)) = some (numeral whole part e) := by
  have stop := stop_of_parseExponent read
  have point : ('.' :: (part ++ rest)).takeWhile Char.isDigit = [] := rfl
  simp [parseDecimal, takeWhile_digits all point, dropWhile_digits all point, takeWhile_digits all' stop.1,
    dropWhile_digits all' stop.1, some_digit, read]

theorem word_of_digit (digit : c.isDigit = true) {word : String} (letter : word.toList.head?.any Char.isDigit = false) :
    String.ofList ((c :: text).map Char.toLower) ≠ word := by
  intro same
  have head : word.toList.head? = some c.toLower := by rw [← same, String.toList_ofList]; rfl
  have lower : c.toLower = c := by
    rw [isDigit_iff] at digit
    apply dif_neg
    intro upper
    have large : 65 ≤ c.toNat := UInt32.le_iff_toNat_le.mp upper.1
    omega
  rw [head, lower] at letter
  simp [digit] at letter

theorem parseF64_digit (digit : c.isDigit = true) :
    parseF64 (c :: text) = (parseDecimal (c :: text)).map fun q => .ofParts false (F64.nearest q) := by
  have not_minus : c ≠ '-' := by
    rintro rfl
    cases digit
  have not_plus : c ≠ '+' := by
    rintro rfl
    cases digit
  have plain : unsigned (c :: text) = c :: text := by simp [unsigned, not_minus, not_plus]
  simp only [parseF64, plain]
  rw [if_neg (word_of_digit digit (by decide)),
    if_neg (not_or.mpr ⟨word_of_digit digit (by decide), word_of_digit digit (by decide)⟩)]
  simp [not_minus]

theorem parseF64_minus (digit : c.isDigit = true) :
    parseF64 ('-' :: c :: text) = (parseDecimal (c :: text)).map fun q => .ofParts true (F64.nearest q) := by
  have plain : unsigned ('-' :: c :: text) = c :: text := by simp [unsigned]
  simp only [parseF64, plain]
  rw [if_neg (word_of_digit digit (by decide)),
    if_neg (not_or.mpr ⟨word_of_digit digit (by decide), word_of_digit digit (by decide)⟩)]
  simp

end Numerals

section Exact

namespace F64

variable {x y : F64} {n m : ℕ}

theorem log_scaled (positive : 0 < n) (z : ℤ) : Int.log 2 ((n : ℚ) * 2 ^ z) = Nat.log 2 n + z := by
  have low : (2 : ℚ) ^ Nat.log 2 n ≤ n := by exact_mod_cast Nat.pow_log_le_self 2 positive.ne'
  have high : (n : ℚ) < 2 ^ (Nat.log 2 n + 1) := by exact_mod_cast Nat.lt_pow_succ_log_self Nat.one_lt_two n
  have scaled : (0 : ℚ) < 2 ^ z := zpow_pos two_pos z
  have product : (0 : ℚ) < n * 2 ^ z := mul_pos (by exact_mod_cast positive) scaled
  have below : (2 : ℕ) ^ (Nat.log 2 n + z : ℤ) ≤ (n : ℚ) * 2 ^ z := by
    rw [Nat.cast_ofNat, zpow_add₀ two_ne_zero, zpow_natCast]
    exact mul_le_mul_of_nonneg_right low scaled.le
  have above : (n : ℚ) * 2 ^ z < (2 : ℕ) ^ (Nat.log 2 n + 1 + z : ℤ) := by
    rw [Nat.cast_ofNat, zpow_add₀ two_ne_zero, ← Nat.cast_succ, zpow_natCast]
    exact mul_lt_mul_of_pos_right high scaled
  have le := (Int.zpow_le_iff_le_log Nat.one_lt_two product).mp below
  have lt := (Int.lt_zpow_iff_log_lt Nat.one_lt_two product).mp above
  omega

theorem nearest_value (finite : m < infinity) : nearest (value m) = m := by
  rcases Nat.eq_zero_or_pos m with rfl | positive
  next => simp [nearest, value, significand]
  have above : 0 < significand m := by
    rw [significand]
    split <;> omega
  have scaled : (0 : ℚ) < 2 ^ ((max (m / 2 ^ 52) 1 : ℕ) - 1075 : ℤ) := zpow_pos two_pos _
  have nonzero : value m ≠ 0 := (mul_pos (by exact_mod_cast above) scaled).ne'
  have exponent : max (Int.log 2 (value m) - 52) (-1074) = (max (m / 2 ^ 52) 1 : ℕ) - 1075 := by
    rw [value, log_scaled above, significand]
    split
    next small =>
      have short : Nat.log 2 m < 52 := Nat.log_lt_of_lt_pow positive.ne' (by omega)
      omega
    next large =>
      have log : Nat.log 2 (2 ^ 52 + m % 2 ^ 52) = 52 := by
        apply (Nat.log_eq_iff (.inl (by decide))).mpr
        omega
      omega
  have quotient : value m / 2 ^ ((max (m / 2 ^ 52) 1 : ℕ) - 1075 : ℤ) = significand m := by
    rw [value, mul_div_cancel_right₀ _ scaled.ne']
  rw [nearest, if_neg nonzero]
  dsimp only
  rw [exponent, quotient, roundEven_natCast, significand, infinity]
  rw [infinity] at finite
  split <;> omega

theorem negative_ofParts {negative : Bool} (small : m < 2 ^ 63) : (ofParts negative m).negative = negative := by
  cases negative <;> simp [F64.negative, ofParts, UInt64.toNat_ofNat'] <;> omega

theorem magnitude_ofParts {negative : Bool} (small : m < 2 ^ 63) : (ofParts negative m).magnitude = m := by
  cases negative <;> simp [magnitude, ofParts, UInt64.toNat_ofNat'] <;> omega

theorem magnitude_lt (x : F64) : x.magnitude < 2 ^ 63 := Nat.mod_lt _ (by decide)

theorem nearest_floor (whole : x.isWhole = true) : nearest ⌊value x.magnitude⌋₊ = x.magnitude := by
  simp only [isWhole, isFinite, Bool.and_eq_true, decide_eq_true_eq, beq_iff_eq] at whole
  rw [whole.2, nearest_value whole.1]

theorem toI64_eq (whole : x.isWhole = true) (small : x.absBelow (2 ^ 63) = true) :
    x.toI64 = if x.negative then -(⌊value x.magnitude⌋₊ : ℤ) else ⌊value x.magnitude⌋₊ := by
  simp only [isWhole, isFinite, absBelow, Bool.and_eq_true, decide_eq_true_eq, beq_iff_eq] at whole small
  have number : x.isNan = false := decide_eq_false (not_lt.mpr whole.1.le)
  have finite : x.isFinite = true := decide_eq_true whole.1
  have below : ⌊value x.magnitude⌋₊ < 2 ^ 63 := by
    have cast := small.2
    rw [← whole.2] at cast
    exact_mod_cast cast
  rw [toI64, number, finite]
  simp only [if_true, Bool.false_eq_true, if_false]
  cases x.negative with
  | true =>
    rw [if_pos rfl, if_pos rfl]
    omega
  | false =>
    rw [if_neg Bool.false_ne_true, if_neg Bool.false_ne_true]
    omega

end F64

end Exact

section Integers

variable {x : F64} {n m digits k : ℕ} {power : ℤ}

namespace F64

theorem ofInt_natCast (n : ℕ) : ofInt n = ofParts false (nearest n) := by
  rw [ofInt, Int.natAbs_natCast, decide_eq_false (by omega)]

theorem infinity_lt : infinity < 2 ^ 63 := by decide

theorem magnitude_ofInt (n : ℕ) : (ofInt n).magnitude = nearest n := by
  rw [ofInt_natCast, magnitude_ofParts ((nearest_le_infinity n).trans_lt infinity_lt)]

theorem negative_ofInt (n : ℕ) : (ofInt n).negative = false := by
  rw [ofInt_natCast, negative_ofParts ((nearest_le_infinity n).trans_lt infinity_lt)]

theorem isNan_ofInt (n : ℕ) : (ofInt n).isNan = false := by
  rw [isNan, magnitude_ofInt]
  exact decide_eq_false (not_lt.mpr (nearest_le_infinity n))

-- Rounding keeps the order as long as one side is exact.
theorem le_ofInt_iff (small : n < 2 ^ 53) : le (ofInt n) (ofInt m) = true ↔ n ≤ m := by
  simp [le, isNan_ofInt, key, negative_ofInt, magnitude_ofInt, nearest_le_nearest_iff small]

theorem isFinite_ofInt (small : n < 2 ^ 53) : (ofInt n).isFinite = true := by
  have bound := nearest_lt small
  rw [isFinite, magnitude_ofInt, infinity, decide_eq_true_eq]
  omega

theorem isWhole_ofInt (small : n < 2 ^ 53) : (ofInt n).isWhole = true := by
  rw [isWhole, isFinite_ofInt small, magnitude_ofInt, value_nearest small]
  simp

theorem toU64_ofInt (small : n < 2 ^ 53) : (ofInt n).toU64 = .ofNat n := by
  rw [toU64, isNan_ofInt, isFinite_ofInt small, negative_ofInt, magnitude_ofInt, value_nearest small]
  have fits : min (2 ^ 64 - 1) n = n := by omega
  rw [if_pos rfl, Nat.floor_natCast, fits, if_neg Bool.false_ne_true, if_neg Bool.false_ne_true]

theorem absBelow_ofInt (small : n < 2 ^ 53) (bound : ℕ) : (ofInt n).absBelow bound = true ↔ n < bound := by
  rw [absBelow, isFinite_ofInt small, magnitude_ofInt, value_nearest small]
  simp

end F64

theorem decimal_scaled (positive : 0 < n) : decimal n ++ List.replicate k '0' = decimal (n * 10 ^ k) := by
  induction k with
  | zero => simp
  | succ k ih =>
    have more : 0 < n * 10 ^ k := Nat.mul_pos positive (Nat.pow_pos (by decide))
    have step := Nat.toDigits_append_toDigits (b := 10) (by decide) more (show 0 < 10 by decide)
    rw [List.replicate_succ', ← List.append_assoc, ih]
    rw [Nat.toDigits_zero, Nat.add_zero] at step
    rw [decimal, step, decimal, Nat.pow_succ, Nat.mul_comm 10, Nat.mul_assoc]

theorem numeral_decimal : numeral (decimal n) [] 0 = n := by
  simp [numeral, decimal_value]

theorem parseDecimal_decimal : parseDecimal (decimal n) = some (n : ℚ) := by
  have read : parseDecimal (decimal n ++ []) = some (numeral (decimal n) [] 0) :=
    parseDecimal_whole (fun c mem => decimal_isDigit mem) decimal_ne_nil rfl
  rwa [List.append_nil, numeral_decimal] at read

theorem parseF64_decimal : parseF64 (decimal n) = some (.ofParts false (F64.nearest n)) := by
  have read := parseDecimal_decimal (n := n)
  cases text : decimal n with
  | nil => exact absurd text decimal_ne_nil
  | cons c rest =>
    have digit : c.isDigit = true := decimal_isDigit (n := n) (by rw [text]; exact List.mem_cons_self)
    rw [text] at read
    rw [parseF64_digit digit, read, Option.map_some]

theorem log_integer (low : 10 ^ 15 ≤ n) (small : n < 2 ^ 53) : Int.log 10 (n : ℚ) = 15 := by
  rw [Int.log_natCast]
  have log : Nat.log 10 n = 15 := by
    apply (Nat.log_eq_iff (.inl (by decide))).mpr
    omega
  rw [log]
  rfl

-- Up to sixteen digits there are none behind the point.
theorem shortestOf_integer (low : 10 ^ 15 ≤ n) (small : n < 2 ^ 53) (below : k < 16)
    (is : shortestOf (F64.nearest n) (k + 1) = some (digits, power)) :
    power = (15 - k : ℕ) ∧ digits * 10 ^ (15 - k) = n := by
  rw [shortestOf, F64.value_nearest small, log_integer low small,
    show (15 : ℤ) + 1 - ((k + 1 : ℕ) : ℤ) = ((15 - k : ℕ) : ℤ) by omega] at is
  obtain ⟨d, candidate, made⟩ := Option.map_eq_some_iff.mp is
  have back : F64.nearest (d * 10 ^ ((15 - k : ℕ) : ℤ)) = F64.nearest n := by
    simpa only [decide_eq_true_eq] using List.find?_some candidate
  cases made
  apply And.intro rfl
  apply F64.nearest_injective small
  rw [← back]
  push_cast
  rw [zpow_natCast]

theorem shortestOf_sixteen (low : 10 ^ 15 ≤ n) (small : n < 2 ^ 53) :
    shortestOf (F64.nearest n) (15 + 1) = some (n, 0) := by
  rw [shortestOf, F64.value_nearest small, log_integer low small, show (15 : ℤ) + 1 - ((15 + 1 : ℕ) : ℤ) = 0 by decide]
  simp

theorem shortest_integer (low : 10 ^ 15 ≤ n) (small : n < 2 ^ 53) :
    ∃ digits k : ℕ, shortest (F64.nearest n) = some (digits, (k : ℤ)) ∧ digits * 10 ^ k = n := by
  cases first : (List.range 16).findSome? fun k => shortestOf (F64.nearest n) (k + 1) with
  | none =>
    have nothing := List.findSome?_eq_none_iff.mp first 15 (by decide)
    rw [shortestOf_sixteen low small] at nothing
    cases nothing
  | some result =>
    obtain ⟨k, mem, is⟩ := List.exists_of_findSome?_eq_some first
    have places := shortestOf_integer low small (List.mem_range.mp mem) is
    have whole : shortest (F64.nearest n) = some result := by
      rw [shortest, List.range_succ, List.findSome?_append, first]
      rfl
    refine ⟨result.1, 15 - k, ?_, places.2⟩
    rw [whole, ← places.1]

theorem displayF64_integer (low : 10 ^ 15 ≤ n) (small : n < 2 ^ 53) : displayF64 (.ofInt n) = decimal n := by
  obtain ⟨digits, k, found, rfl⟩ := shortest_integer low small
  have finite := F64.isFinite_ofInt small
  have positive : 0 < digits * 10 ^ k := by omega
  have above := F64.nearest_lt_nearest positive small
  rw [Nat.cast_zero, F64.nearest_zero] at above
  rw [F64.isFinite, F64.magnitude_ofInt, decide_eq_true_eq] at finite
  rw [displayF64, F64.isNan_ofInt, F64.negative_ofInt, F64.magnitude_ofInt, found, if_neg Bool.false_ne_true,
    if_neg finite.ne, if_neg above.ne']
  have text := decimal_scaled (k := k) (Nat.pos_of_mul_pos_right positive)
  simp [positional, text]

end Integers

end Gems.Lib
