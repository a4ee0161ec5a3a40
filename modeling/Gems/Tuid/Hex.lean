import Gems.Common
import Gems.Lib.Hex
import Gems.Tuid

set_option autoImplicit false

namespace Gems.Tuid

open Lib

-- `&text[i * 2..i * 2 + 2]`, when both ends are between characters.
def piece (text : List UInt8) (i : Nat) : List UInt8 := (text.drop (i * 2)).take 2

def whole (text : List UInt8) (i : Nat) : Bool := isCharBoundary text (i * 2) && isCharBoundary text (i * 2 + 2)

-- The loop from `i` on, `n` turns before its end.
def hexBytes (text : List UInt8) : Nat → Nat → Except Fault (Option (List UInt8))
  | 0, _ => .ok (some [])
  | n + 1, i =>
    if whole text i then
      match fromStrRadix16 8 (piece text i) with
      | none => .ok none
      | some byte => (hexBytes text n (i + 1)).map (Option.map (UInt8.ofNat byte :: ·))
    else .error .panicked

def fromHexStr (s : String) : Except Fault (Option Tuid) :=
  if (utf8 s).length ≠ tuidLen * 2 then .ok none
  else (hexBytes (utf8 s) tuidLen 0).map (Option.map fromBytes)

def toHexString (t : Tuid) : String := String.ofList (t.bytes.flatMap fun b => hexText 2 b.toNat)

/-- 48 hexadecimal digits that spell the bytes of `t`. -/
def Spells (s : String) (t : Tuid) : Prop := HexSpelling (utf8 s) t.bytes

/-- Parsing `s` neither panics nor takes or misses anything but the format. -/
def ParsesExactly (s : String) : Prop := ∃ found, fromHexStr s = .ok found ∧ ∀ t, found = some t ↔ Spells s t

def twoDigits : List UInt8 → Bool
  | [a, b] => (hexDigit a).isSome && (hexDigit b).isSome
  | _ => false

def signedDigit : List UInt8 → Bool
  | [a, b] => a == 43 && (hexDigit b).isSome
  | _ => false

/-- A text of the right size is all digits, or its first piece that is neither two digits nor a
signed digit leaves the characters around it whole. -/
def Regular (s : String) : Prop :=
  (utf8 s).length = tuidLen * 2 → (∀ i < tuidLen, twoDigits (piece (utf8 s) i) = true) ∨
    ∃ i < tuidLen, whole (utf8 s) i = true ∧ twoDigits (piece (utf8 s) i) = false ∧
      signedDigit (piece (utf8 s) i) = false ∧
      ∀ j < i, twoDigits (piece (utf8 s) j) = true ∨ signedDigit (piece (utf8 s) j) = true

section Pieces

variable {text : List UInt8} {i n : Nat}

theorem piece_eq (inside : i * 2 + 2 ≤ text.length) : ∃ a b, piece text i = [a, b] ∧
    text[i * 2]? = some a ∧ text.drop (i * 2) = a :: b :: text.drop ((i + 1) * 2) := by
  have first : i * 2 < text.length := by omega
  have second : i * 2 + 1 < text.length := by omega
  have parts : text.drop (i * 2) = text[i * 2] :: text[i * 2 + 1] :: text.drop ((i + 1) * 2) := by
    rw [List.drop_eq_getElem_cons first, List.drop_eq_getElem_cons second, Nat.succ_mul]
  refine ⟨_, _, ?_, List.getElem?_eq_getElem first, parts⟩
  rw [piece, parts]
  rfl

theorem readable_iff (a b : UInt8) : (∃ n, fromStrRadix16 8 [a, b] = some n) ↔
    twoDigits [a, b] = true ∨ signedDigit [a, b] = true := by
  simp only [twoDigits, signedDigit, Bool.and_eq_true, Option.isSome_iff_exists, beq_iff_eq]
  constructor
  next =>
    rintro ⟨n, read⟩
    obtain ⟨plus | high, low⟩ := of_fromStrRadix16 read
    next => exact .inr ⟨plus, low⟩
    next => exact .inl ⟨high, low⟩
  next =>
    rintro (⟨⟨x, high⟩, y, low⟩ | ⟨rfl, y, low⟩)
    next => exact ⟨_, fromStrRadix16_digits high low⟩
    next => exact ⟨_, fromStrRadix16_signed low⟩

theorem starts_of_taken (taken : twoDigits (piece text i) = true ∨ signedDigit (piece text i) = true)
    (inside : i * 2 + 2 ≤ text.length) : isCharBoundary text (i * 2) = true := by
  obtain ⟨a, b, two, here, -⟩ := piece_eq inside
  have ascii : isContinuation a = false := by
    rw [two] at taken
    simp only [twoDigits, signedDigit, Bool.and_eq_true, Option.isSome_iff_exists, beq_iff_eq] at taken
    rcases taken with ⟨⟨x, high⟩, -⟩ | ⟨rfl, -⟩
    next =>
      have range := hexDigit_eq_some.mp high
      have small : ¬ (0x80 : UInt8) ≤ a := by
        rw [UInt8.le_iff_toNat_le]
        change ¬ 128 ≤ a.toNat
        omega
      simp [isContinuation, small]
    next => rfl
  simp [isCharBoundary, here, ascii]

theorem whole_of_taken (taken : twoDigits (piece text i) = true ∨ signedDigit (piece text i) = true)
    (inside : i * 2 + 2 ≤ text.length) (next : isCharBoundary text ((i + 1) * 2) = true) :
    whole text i = true := by
  rw [whole, starts_of_taken taken inside, Bool.true_and]
  rwa [Nat.succ_mul] at next

theorem boundary_end : isCharBoundary text text.length = true := by
  simp [isCharBoundary]

theorem hexBytes_cases (size : text.length = (i + n) * 2) :
    (∃ bytes, hexBytes text n i = .ok (some bytes) ∧ bytes.length = n ∧
      (∀ j, i ≤ j → j < i + n → twoDigits (piece text j) = true ∨ signedDigit (piece text j) = true) ∧
      ((∀ j, i ≤ j → j < i + n → twoDigits (piece text j) = true) → HexSpelling (text.drop (i * 2)) bytes)) ∨
    ∃ k, i ≤ k ∧ k < i + n ∧
      (∀ j, i ≤ j → j < k → twoDigits (piece text j) = true ∨ signedDigit (piece text j) = true) ∧
      ((whole text k = false ∧ hexBytes text n i = .error .panicked) ∨
        (whole text k = true ∧ twoDigits (piece text k) = false ∧ signedDigit (piece text k) = false ∧
          hexBytes text n i = .ok none)) := by
  induction n generalizing i with
  | zero =>
    refine .inl ⟨[], rfl, rfl, by omega, fun _ => ?_⟩
    rw [List.drop_eq_nil_of_le (by omega)]
    exact .nil
  | succ n ih =>
    obtain ⟨a, b, two, here, parts⟩ := @piece_eq text i (by omega)
    rw [hexBytes, two]
    cases cut : whole text i with
    | false => exact .inr ⟨i, le_rfl, by omega, by omega, .inl ⟨cut, rfl⟩⟩
    | true =>
      rw [if_pos rfl]
      cases read : fromStrRadix16 8 [a, b] with
      | none =>
        have unread := mt (readable_iff a b).mpr (by simp [read])
        rw [not_or, Bool.not_eq_true, Bool.not_eq_true, ← two] at unread
        exact .inr ⟨i, le_rfl, by omega, by omega, .inr ⟨cut, unread.1, unread.2, rfl⟩⟩
      | some byte =>
        have taken := (readable_iff a b).mp ⟨byte, read⟩
        rw [← two] at taken
        have from_ {k : Nat} (later : ∀ j, i + 1 ≤ j → j < k →
            twoDigits (piece text j) = true ∨ signedDigit (piece text j) = true)
              (j : Nat) (start : i ≤ j) (before : j < k) :
            twoDigits (piece text j) = true ∨ signedDigit (piece text j) = true := by
          rcases Nat.eq_or_lt_of_le start with rfl | after
          next => exact taken
          next => exact later j after before
        rcases ih (i := i + 1) (by omega) with ⟨bytes, ran, count, all, spelled⟩ | ⟨k, after, inside, before, stopped⟩
        next =>
          refine .inl ⟨_, by rw [ran]; rfl, by simp [count],
            from_ (k := i + (n + 1)) fun j start stop => all j start (by omega), ?_⟩
          intro digits
          have first := digits i le_rfl (by omega)
          simp only [two, twoDigits, Bool.and_eq_true, Option.isSome_iff_exists] at first
          obtain ⟨⟨x, high⟩, y, low⟩ := first
          obtain rfl := Option.some.inj ((fromStrRadix16_digits high low).symm.trans read)
          rw [parts]
          exact .cons high low (spelled fun j start stop => digits j (by omega) (by omega))
        next =>
          refine .inr ⟨k, by omega, by omega, from_ before, ?_⟩
          rcases stopped with ⟨cut', panics⟩ | ⟨whole', other, unsigned, stops⟩
          next => exact .inl ⟨cut', by rw [panics]; rfl⟩
          next => exact .inr ⟨whole', other, unsigned, by rw [stops]; rfl⟩

theorem HexSpelling.pieces {bytes : List UInt8} (spelling : HexSpelling text bytes)
    {j : Nat} (inside : j < bytes.length) :
    twoDigits (piece text j) = true := by
  induction spelling generalizing j with
  | nil => cases inside
  | cons high low rest ih =>
    cases j with
    | zero => simp [piece, twoDigits, high, low]
    | succ j =>
      have later := ih (Nat.lt_of_succ_lt_succ inside)
      rwa [piece, Nat.succ_mul, List.drop_succ_cons, List.drop_succ_cons]

end Pieces

section Format

variable {s : String} {t : Tuid}

theorem fromHexStr_of_size (size : (utf8 s).length = tuidLen * 2) :
    fromHexStr s = (hexBytes (utf8 s) tuidLen 0).map (Option.map fromBytes) := if_neg (not_not.mpr size)

theorem Spells.size (spells : Spells s t) : (utf8 s).length = tuidLen * 2 := by
  rw [HexSpelling.length spells, t.length_eq, Nat.mul_comm]

-- Every piece up to `k` is taken, and `k` starts a character.
theorem whole_before {text : List UInt8} {k : Nat} (inside : k * 2 ≤ text.length)
    (before : ∀ j < k, twoDigits (piece text j) = true ∨ signedDigit (piece text j) = true)
    (start : isCharBoundary text (k * 2) = true) {j : Nat} (early : j < k) : whole text j = true := by
  apply whole_of_taken (before j early) (by omega)
  rcases Nat.eq_or_lt_of_le (Nat.succ_le_of_lt early) with same | later
  next =>
    rw [← same] at start
    exact start
  next => exact starts_of_taken (before (j + 1) later) (by omega)

theorem fromHexStr_spelled (spells : Spells s t) : fromHexStr s = .ok (some t) := by
  have size := spells.size
  have digits (j : Nat) (inside : j < tuidLen) : twoDigits (piece (utf8 s) j) = true :=
    HexSpelling.pieces spells (by rwa [t.length_eq])
  rw [fromHexStr_of_size size]
  rcases hexBytes_cases (i := 0) (n := tuidLen) (by rw [size, Nat.zero_add]) with
    ⟨bytes, ran, -, -, spelled⟩ | ⟨k, -, inside, -, stopped⟩
  next =>
    have same := HexSpelling.unique (spelled fun j _ stop => digits j (by omega)) spells
    rw [ran, same]
    exact congrArg (Except.ok ∘ some) t.fromBytes_bytes
  next =>
    have uncut := whole_before (k := tuidLen) size.ge (fun j stop => .inl (digits j stop))
      (by rw [← size]; exact boundary_end) (j := k) (by omega)
    rcases stopped with ⟨cut, -⟩ | ⟨-, other, -⟩
    next => rw [uncut] at cut; cases cut
    next => rw [digits k (by omega)] at other; cases other

theorem spells_toHexString (t : Tuid) : Spells t.toHexString t := by
  have spelled (bytes : List UInt8) :
      HexSpelling (encodeChars (bytes.flatMap fun b => hexText 2 b.toNat)) bytes := by
    induction bytes with
    | nil => exact .nil
    | cons b rest ih =>
      have first := hexSpelling_hexText b
      have text : encodeChars ((b :: rest).flatMap fun b => hexText 2 b.toNat) =
          encodeChars (hexText 2 b.toNat) ++ encodeChars (rest.flatMap fun b => hexText 2 b.toNat) := by
        simp [encodeChars]
      rw [text]
      generalize encodeChars (hexText 2 b.toNat) = pair at first
      cases first with
      | cons high low none =>
        cases none
        exact .cons high low ih
  rw [Spells, toHexString, utf8, String.toList_ofList]
  exact spelled t.bytes

theorem fromHexStr_toHexString (t : Tuid) : fromHexStr t.toHexString = .ok (some t) :=
  fromHexStr_spelled (spells_toHexString t)

theorem toHexString_injective {t' : Tuid} (same : t.toHexString = t'.toHexString) : t = t' := by
  have read := fromHexStr_toHexString t
  rw [same, fromHexStr_toHexString] at read
  exact (Option.some.inj (Except.ok.inj read)).symm

theorem parsesExactly_of_regular (regular : Regular s) : ParsesExactly s := by
  by_cases size : (utf8 s).length = tuidLen * 2
  next =>
    rw [ParsesExactly, fromHexStr_of_size size]
    rcases hexBytes_cases (i := 0) (n := tuidLen) (by rw [size, Nat.zero_add]) with
      ⟨bytes, ran, count, taken, spelled⟩ | ⟨k, -, inside, taken, stopped⟩
    next =>
      rcases regular size with digits | ⟨k, inside, -, other, unsigned, -⟩
      next =>
        have spells := spelled fun j _ stop => digits j (by omega)
        refine ⟨some (fromBytes bytes), by rw [ran]; rfl, fun t => ?_⟩
        rw [Option.some.injEq]
        constructor
        next =>
          rintro rfl
          rwa [Spells, fromBytes, dif_pos count]
        next =>
          intro spells'
          rw [HexSpelling.unique spells spells', fromBytes_bytes]
      next => simpa [other, unsigned] using taken k (Nat.zero_le _) (by omega)
    next =>
      rcases stopped with ⟨cut, -⟩ | ⟨-, other, -, stops⟩
      next =>
        -- a piece that cuts a character comes before the first irregular one
        have uncut : whole (utf8 s) k = true := by
          rcases regular size with digits | ⟨k', inside', whole', other, unsigned, before⟩
          next =>
            exact whole_before (k := tuidLen) size.ge (fun j stop => .inl (digits j stop))
              (by rw [← size]; exact boundary_end) (by omega)
          next =>
            rcases Nat.lt_trichotomy k k' with earlier | rfl | later
            next => exact whole_before (by omega) before (Bool.and_eq_true_iff.mp whole').1 earlier
            next => exact whole'
            next => simpa [other, unsigned] using taken k' (Nat.zero_le _) later
        rw [uncut] at cut
        cases cut
      next =>
        refine ⟨none, by rw [stops]; rfl, fun t => ?_⟩
        simp only [reduceCtorEq, false_iff]
        intro spells
        rw [HexSpelling.pieces spells (by rw [t.length_eq]; omega)] at other
        cases other
  next =>
    refine ⟨none, if_pos size, fun t => ?_⟩
    simp only [reduceCtorEq, false_iff]
    exact mt Spells.size size

theorem regular_of_parsesExactly (exact_ : ParsesExactly s) : Regular s := by
  intro size
  obtain ⟨found, parsed, spells⟩ := exact_
  rw [fromHexStr_of_size size] at parsed
  rcases hexBytes_cases (i := 0) (n := tuidLen) (by rw [size, Nat.zero_add]) with
    ⟨bytes, ran, count, -, -⟩ | ⟨k, -, inside, taken, stopped⟩
  next =>
    rw [ran] at parsed
    obtain rfl := Except.ok.inj parsed
    have spelled := (spells _).mp rfl
    exact .inl fun j stop => HexSpelling.pieces spelled (by rwa [Tuid.length_eq])
  next =>
    rcases stopped with ⟨-, panics⟩ | ⟨uncut, other, unsigned, -⟩
    next =>
      rw [panics] at parsed
      cases parsed
    next => exact .inr ⟨k, by omega, uncut, other, unsigned, fun j before => taken j (Nat.zero_le _) before⟩

/-- The parser does what the format says of exactly the regular texts, and of every printed id. -/
theorem hex_format (s : String) (t : Tuid) :
    (ParsesExactly s ↔ Regular s) ∧ fromHexStr t.toHexString = .ok (some t) :=
  ⟨⟨regular_of_parsesExactly, parsesExactly_of_regular⟩, fromHexStr_toHexString t⟩

def signedText : String := "+f" ++ String.ofList (List.replicate 46 '0')

def cutText : String := "0é" ++ String.ofList (List.replicate 45 '0')

-- The one is taken, the other panics.
theorem hex_misread : ¬ ParsesExactly signedText ∧ ¬ ParsesExactly cutText := by
  refine ⟨fun exact_ => ?_, fun exact_ => ?_⟩
  next =>
    rcases regular_of_parsesExactly exact_ (by decide) with digits | ⟨i, inside, irregular⟩
    next => exact absurd (digits 0 (by decide)) (by decide)
    next =>
      have taken : ∀ i < tuidLen, ¬ (whole (utf8 signedText) i = true ∧ twoDigits (piece (utf8 signedText) i) = false ∧
          signedDigit (piece (utf8 signedText) i) = false) := by
        decide
      exact taken i inside ⟨irregular.1, irregular.2.1, irregular.2.2.1⟩
  next =>
    obtain ⟨found, parsed, -⟩ := exact_
    have panics : fromHexStr cutText = .error .panicked := by decide
    rw [panics] at parsed
    cases parsed

end Format

end Gems.Tuid
