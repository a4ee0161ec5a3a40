import Gems.Json.Reads

set_option autoImplicit false

namespace Gems.Json

open Lib

section Display

-- `Display` of a signed integer.
def integerText (i : ℤ) : List Char := if i < 0 then '-' :: decimal i.natAbs else decimal i.natAbs

def writeNumber (n : F64) : List Char :=
  if n.isWhole && n.absBelow (10 ^ 15) then integerText n.toI64 else displayF64 n

def writeChar : Char → List Char
  | '"' => ['\\', '"']
  | '\\' => ['\\', '\\']
  | '\n' => ['\\', 'n']
  | '\r' => ['\\', 'r']
  | '\t' => ['\\', 't']
  | c => if c.toNat < 0x20 then '\\' :: 'u' :: hexText 4 c.toNat else [c]

def writeString (s : String) : List Char := '"' :: (s.toList.flatMap writeChar ++ ['"'])

namespace Value

mutual

def write : Value → List Char
  | .null => "null".toList
  | .bool true => "true".toList
  | .bool false => "false".toList
  | .number n => writeNumber n
  | .string s => writeString s
  | .array items => '[' :: (commaSeparated (writeItems items) ++ [']'])
  | .object entries => '{' :: (commaSeparated (writeEntries entries) ++ ['}'])

def writeItems : List Value → List (List Char)
  | [] => []
  | v :: items => v.write :: writeItems items

def writeEntries : List (String × Value) → List (List Char)
  | [] => []
  | entry :: entries => writeEntry entry :: writeEntries entries

def writeEntry : String × Value → List Char
  | (key, v) => writeString key ++ ':' :: v.write

end

def toString (v : Value) : String := String.ofList v.write

end Value

end Display

section Strings

variable {c : Char} {chars : List Char}

theorem charText_writeChar (c : Char) : CharText (writeChar c) c false := by
  unfold writeChar
  split
  next => exact .short (by decide)
  next => exact .short (by decide)
  next => exact .short (by decide)
  next => exact .short (by decide)
  next => exact .short (by decide)
  next quote slash _ _ _ =>
    split
    next control =>
      have quad : Quad (hexText 4 c.toNat) c.toNat := by
        apply Quad.mk length_hexText
        rw [hexFrom_hexText (by omega), Nat.zero_mul, Nat.zero_add]
      have scalar : surrogate c.toNat = false := by
        simp only [surrogate, Bool.and_eq_false_iff, decide_eq_false_iff_not]
        omega
      have written := CharText.code quad scalar
      rwa [Char.ofNat_toNat] at written
    next printed => exact .plain (by omega) quote slash

theorem charsText_write (chars : List Char) : CharsText (chars.flatMap writeChar) chars false := by
  induction chars with
  | nil => exact .nil
  | cons c chars ih => exact .cons (charText_writeChar c) ih

theorem stringText_write (s : String) : StringText (writeString s) s false := by
  have written := StringText.quoted (charsText_write s.toList)
  rwa [String.ofList_toList] at written

end Strings

section Numbers

variable {n : F64} {k : ℕ}

theorem whole_decimal (k : ℕ) : Whole (decimal k) := by
  refine ⟨fun c mem => decimal_isDigit mem, decimal_ne_nil, ?_⟩
  intro zero
  rw [decimal_head zero]
  rfl

-- A zero is written without its sign.
def unsignZero (n : F64) : F64 := .ofParts (n.negative && n.magnitude != 0) n.magnitude

theorem eq_unsignZero (number : n.isFinite = true) : (unsignZero n).eq n = true := by
  have finite : n.magnitude < F64.infinity := of_decide_eq_true number
  have small := n.magnitude_lt
  have magnitude : (F64.ofParts (n.negative && n.magnitude != 0) n.magnitude).magnitude = n.magnitude :=
    F64.magnitude_ofParts small
  have negative : (F64.ofParts (n.negative && n.magnitude != 0) n.magnitude).negative =
    (n.negative && n.magnitude != 0) :=
    F64.negative_ofParts small
  have key : (unsignZero n).key = n.key := by
    rw [F64.key, F64.key, unsignZero, magnitude, negative]
    by_cases zero : n.magnitude = 0
    next => simp [zero]
    next => simp [zero]
  rw [F64.eq, key, F64.isNan, F64.isNan, unsignZero, magnitude]
  simp [finite.le]

theorem numberText_decimal (k : ℕ) : NumberText (decimal k) (.ofParts false (F64.nearest k)) := by
  have written := NumberText.positive (whole_decimal k) .none .none
  rwa [List.append_nil, List.append_nil, numeral_decimal] at written

theorem numberText_minus (k : ℕ) : NumberText ('-' :: decimal k) (.ofParts true (F64.nearest k)) := by
  have written := NumberText.negative (whole_decimal k) .none .none
  rwa [List.append_nil, List.append_nil, numeral_decimal] at written

theorem numberText_write (whole : n.isWhole = true) (small : n.absBelow (10 ^ 15) = true) :
    NumberText (writeNumber n) (unsignZero n) := by
  have exact_whole := F64.nearest_floor whole
  have below : n.absBelow (2 ^ 63) = true := by
    simp only [F64.absBelow, Bool.and_eq_true, decide_eq_true_eq] at small ⊢
    exact ⟨small.1, small.2.trans (by norm_num)⟩
  rw [writeNumber, whole, small, F64.toI64_eq whole below, Bool.and_self, if_pos rfl, unsignZero]
  rcases Nat.eq_zero_or_pos ⌊F64.value n.magnitude⌋₊ with none | positive
  next =>
    rw [none, Nat.cast_zero, F64.nearest_zero] at exact_whole
    have written := numberText_decimal 0
    rw [Nat.cast_zero, F64.nearest_zero] at written
    rw [none, ← exact_whole]
    simpa [integerText] using written
  next =>
    have nonzero : n.magnitude ≠ 0 := by
      intro zero
      rw [zero] at positive
      simp [F64.value, F64.significand] at positive
    cases n.negative with
    | false =>
      have written := numberText_decimal ⌊F64.value n.magnitude⌋₊
      rw [exact_whole] at written
      rw [if_neg Bool.false_ne_true, integerText, if_neg (by omega), Int.natAbs_natCast, Bool.false_and]
      exact written
    | true =>
      have written := numberText_minus ⌊F64.value n.magnitude⌋₊
      rw [exact_whole] at written
      rw [if_pos rfl, integerText, if_pos (by omega), Int.natAbs_neg, Int.natAbs_natCast, Bool.true_and,
        bne_iff_ne.mpr nonzero]
      exact written

theorem unsignZero_ofInt (k : ℕ) : unsignZero (.ofInt k) = .ofInt k := by
  rw [unsignZero, F64.negative_ofInt, F64.magnitude_ofInt, Bool.false_and, ← F64.ofInt_natCast]

-- Integers up to the precision of a double are written in decimal, whichever branch writes them.
theorem writeNumber_ofInt (small : k < 2 ^ 53) : writeNumber (.ofInt k) = decimal k := by
  have whole := F64.isWhole_ofInt small
  by_cases short : k < 10 ^ 15
  next =>
    have bound : (F64.ofInt k).absBelow (10 ^ 15) = true := by
      have cast := (F64.absBelow_ofInt small (10 ^ 15)).mpr short
      rwa [Nat.cast_pow, Nat.cast_ofNat] at cast
    have below : (F64.ofInt k).absBelow (2 ^ 63) = true := by
      have cast := (F64.absBelow_ofInt small (2 ^ 63)).mpr (by omega)
      rwa [Nat.cast_pow, Nat.cast_ofNat] at cast
    rw [writeNumber, whole, bound, F64.toI64_eq whole below, F64.negative_ofInt, F64.magnitude_ofInt,
      F64.value_nearest small]
    simp [integerText]
  next =>
    have bound : (F64.ofInt k).absBelow (10 ^ 15) = false := by
      have cast := (not_congr (F64.absBelow_ofInt small (10 ^ 15))).mpr short
      rwa [Nat.cast_pow, Nat.cast_ofNat, Bool.not_eq_true] at cast
    rw [writeNumber, bound, Bool.and_false, if_neg Bool.false_ne_true]
    exact displayF64_integer (by omega) small

end Numbers

section Values

namespace Value

inductive Numbers (P : F64 → Prop) : Value → Prop
  | null : Numbers P .null
  | bool {b : Bool} : Numbers P (.bool b)
  | number {n : F64} (holds : P n) : Numbers P (.number n)
  | string {s : String} : Numbers P (.string s)
  | array {items : List Value} (each : ∀ v ∈ items, Numbers P v) : Numbers P (.array items)
  | object {entries : List (String × Value)} (each : ∀ entry ∈ entries, Numbers P entry.2) : Numbers P (.object entries)

-- An integer of absolute value below 10 to the 15.
def shortInteger (n : F64) : Prop := n.isWhole = true ∧ n.absBelow (10 ^ 15) = true

structure Written (n : F64) : Prop where
  finite : n.isFinite = true
  text : NumberText (writeNumber n) (unsignZero n)

theorem written_short {n : F64} (short : shortInteger n) : Written n where
  finite := by
    have whole := short.1
    simp only [F64.isWhole, Bool.and_eq_true] at whole
    exact whole.1
  text := numberText_write short.1 short.2

theorem written_ofInt {k : ℕ} (small : k < 2 ^ 53) : Written (.ofInt k) where
  finite := F64.isFinite_ofInt small
  text := by
    rw [writeNumber_ofInt small, unsignZero_ofInt, F64.ofInt_natCast]
    exact numberText_decimal k

theorem Numbers.imp {P Q : F64 → Prop} {v : Value} (imp : ∀ n, P n → Q n) (numbers : v.Numbers P) : v.Numbers Q := by
  induction numbers with
  | null => exact .null
  | bool => exact .bool
  | number holds => exact .number (imp _ holds)
  | string => exact .string
  | array each ih => exact .array ih
  | object each ih => exact .object ih

-- What is read back: a negative zero has no sign.
mutual

def unsigned : Value → Value
  | .number n => .number (unsignZero n)
  | .array items => .array (unsignedItems items)
  | .object entries => .object (unsignedEntries entries)
  | v => v

def unsignedItems : List Value → List Value
  | [] => []
  | v :: items => v.unsigned :: unsignedItems items

def unsignedEntries : List (String × Value) → List (String × Value)
  | [] => []
  | entry :: entries => unsignedEntry entry :: unsignedEntries entries

def unsignedEntry : String × Value → String × Value
  | (key, v) => (key, v.unsigned)

end

variable {items : List Value} {entries : List (String × Value)} {room : Nat} {v : Value}

theorem unsignedItems_eq (items : List Value) : unsignedItems items = items.map unsigned := by
  induction items with
  | nil => rfl
  | cons v items ih => rw [unsignedItems, ih, List.map_cons]

theorem unsignedEntries_eq (entries : List (String × Value)) :
    unsignedEntries entries = entries.map fun entry => (entry.1, entry.2.unsigned) := by
  induction entries with
  | nil => rfl
  | cons entry entries ih => rw [unsignedEntries, ih, List.map_cons, unsignedEntry]

theorem writeItems_eq (items : List Value) : writeItems items = items.map write := by
  induction items with
  | nil => rfl
  | cons v items ih => rw [writeItems, ih, List.map_cons]

theorem writeEntries_eq (entries : List (String × Value)) :
    writeEntries entries = entries.map fun entry => writeString entry.1 ++ ':' :: entry.2.write := by
  induction entries with
  | nil => rfl
  | cons entry entries ih => rw [writeEntries, ih, List.map_cons, writeEntry]

theorem nesting_item (mem : v ∈ items) : v.nesting ≤ nestingItems items := by
  induction items with
  | nil => exact absurd mem List.not_mem_nil
  | cons w items ih =>
    rw [nestingItems]
    rcases List.mem_cons.mp mem with rfl | later
    next => exact Nat.le_max_left _ _
    next => exact (ih later).trans (Nat.le_max_right _ _)

theorem nesting_entry {entry : String × Value} (mem : entry ∈ entries) : entry.2.nesting ≤ nestingEntries entries := by
  induction entries with
  | nil => exact absurd mem List.not_mem_nil
  | cons entry' entries ih =>
    rw [nestingEntries, nestingEntry]
    rcases List.mem_cons.mp mem with rfl | later
    next => exact Nat.le_max_left _ _
    next => exact (ih later).trans (Nat.le_max_right _ _)

theorem eq_unsigned (numbers : v.Numbers Written) : v.unsigned.eq v = true := by
  induction numbers with
  | null => rfl
  | bool => simp [unsigned, eq]
  | number written => exact eq_unsignZero written.finite
  | string => simp [unsigned, eq]
  | @array items each ih =>
    rw [unsigned, eq]
    clear each
    induction items with
    | nil => rfl
    | cons v items ih' =>
      rw [unsignedItems, eqItems, ih v List.mem_cons_self, ih' fun w mem => ih w (List.mem_cons_of_mem v mem)]
      rfl
  | @object entries each ih =>
    rw [unsigned, eq]
    clear each
    induction entries with
    | nil => rfl
    | cons entry entries ih' =>
      rw [unsignedEntries, eqEntries, unsignedEntry, eqEntry, ih entry List.mem_cons_self,
        ih' fun w mem => ih w (List.mem_cons_of_mem entry mem)]
      simp

def element (v : Value) : Element := ⟨[], v.write, [], v.unsigned, false⟩

def member (entry : String × Value) : Member := ⟨[], writeString entry.1, [], entry.1, false, element entry.2⟩

theorem element_spaced (v : Value) : (element v).Spaced :=
  ⟨fun _ mem => absurd mem List.not_mem_nil, fun _ mem => absurd mem List.not_mem_nil⟩

theorem member_spaced (entry : String × Value) : (member entry).Spaced where
  before := fun _ mem => absurd mem List.not_mem_nil
  between := fun _ mem => absurd mem List.not_mem_nil
  key := stringText_write entry.1
  element := element_spaced entry.2

theorem valueText_items (each : ∀ v ∈ items, ValueText room v.write v.unsigned false) :
    ValueText (room + 1) (write (.array items)) (unsigned (.array items)) false := by
  have texts : (items.map element).map Element.text = writeItems items := by
    simp [writeItems_eq, Element.text, element]
  have values : (items.map element).map Element.value = unsignedItems items := by
    simp [unsignedItems_eq, element]
  have pairs : (items.map element).any Element.pairs = false := by
    simp [element]
  rw [write, unsigned, ← texts, ← values]
  by_cases empty : items = []
  next =>
    rw [empty]
    exact .emptyArray fun _ mem => absurd mem List.not_mem_nil
  next =>
    rw [← pairs]
    apply ValueText.array
    next => simpa using empty
    next => exact List.forall_mem_map.mpr fun v _ => element_spaced v
    next => exact List.forall_mem_map.mpr each

theorem valueText_entries (each : ∀ entry ∈ entries, ValueText room entry.2.write entry.2.unsigned false) :
    ValueText (room + 1) (write (.object entries)) (unsigned (.object entries)) false := by
  have texts : (entries.map member).map Member.text = writeEntries entries := by
    simp [writeEntries_eq, Member.text, Element.text, element, member]
  have values : (entries.map member).map Member.entry = unsignedEntries entries := by
    simp [unsignedEntries_eq, Member.entry, element, member]
  have pairs : ((entries.map member).any fun m => m.keyPairs || m.element.pairs) = false := by
    simp [element, member]
  rw [write, unsigned, ← texts, ← values]
  by_cases empty : entries = []
  next =>
    rw [empty]
    exact .emptyObject fun _ mem => absurd mem List.not_mem_nil
  next =>
    rw [← pairs]
    apply ValueText.object
    next => simpa using empty
    next => exact List.forall_mem_map.mpr fun entry _ => member_spaced entry
    next => exact List.forall_mem_map.mpr each

-- A value written without space is a text of the grammar.
theorem valueText_write (numbers : v.Numbers Written) (fits : v.nesting ≤ room) :
    ValueText room v.write v.unsigned false := by
  induction numbers generalizing room with
  | null => exact .null
  | @bool b =>
    cases b with
    | true => exact .true
    | false => exact .false
  | number written => exact .number written.text
  | string => exact .string (stringText_write _)
  | @array items each ih =>
    rw [nesting] at fits
    cases room with
    | zero => cases fits
    | succ room =>
      apply valueText_items
      intro v mem
      have inside := nesting_item mem
      exact ih v mem (by omega)
  | @object entries each ih =>
    rw [nesting] at fits
    cases room with
    | zero => cases fits
    | succ room =>
      apply valueText_entries
      intro entry mem
      have inside := nesting_entry mem
      exact ih entry mem (by omega)

theorem parse_toString (numbers : v.Numbers Written) (fits : v.nesting ≤ maxNestingDepth) :
    parse v.toString = .ok v.unsigned := by
  have gap : Gap [] := fun _ mem => absurd mem List.not_mem_nil
  have written := JsonText.spaced gap gap (valueText_write numbers fits)
  rw [List.nil_append, List.append_nil] at written
  exact (parse_of_gives written).mpr rfl

/-- What is written is read back, up to the sign of zeros, which `==` ignores. -/
theorem write_parse (v : Value) (integers : v.Numbers shortInteger) (fits : v.nesting ≤ maxNestingDepth) :
    ∃ w, parse v.toString = .ok w ∧ w.eq v = true := by
  have numbers := integers.imp fun n short => written_short short
  exact ⟨v.unsigned, parse_toString numbers fits, eq_unsigned numbers⟩

theorem write_parse_object : ∃ w, parse (toString (.object [("a", .number (.ofInt (-3))), ("a", .string "\x01")])) =
    .ok w ∧
    w.eq (.object [("a", .number (.ofInt (-3))), ("a", .string "\x01")]) = true := by
  apply write_parse
  next =>
    apply Numbers.object
    intro entry mem
    simp only [List.mem_cons, List.not_mem_nil, or_false] at mem
    rcases mem with rfl | rfl
    next => exact .number ⟨by decide +kernel, by decide +kernel⟩
    next => exact .string
  next => decide

end Value

end Values

end Gems.Json
