import Mathlib.Data.List.Basic

set_option autoImplicit false

namespace Gems.Lib

def encodeChars (cs : List Char) : List UInt8 := cs.flatMap String.utf8EncodeChar

def utf8 (s : String) : List UInt8 := encodeChars s.toList

def isContinuation (b : UInt8) : Bool := 0x80 ≤ b && b < 0xC0

def isCharBoundary (bytes : List UInt8) (i : Nat) : Bool :=
  i == 0 || match bytes[i]? with
    | none => i == bytes.length
    | some b => !isContinuation b

-- The last boundary up to an index.
def charBoundary (bytes : List UInt8) : Nat → Nat
  | 0 => 0
  | i + 1 => if isCharBoundary bytes (i + 1) then i + 1 else charBoundary bytes i

-- The longest part from the front that takes at most `max` bytes.
def cutChars : Nat → List Char → List Char
  | _, [] => []
  | max, c :: cs => if c.utf8Size ≤ max then c :: cutChars (max - c.utf8Size) cs else []

def cut (max : Nat) (s : String) : String := String.ofList (cutChars max s.toList)

section Boundaries

theorem isContinuation_ofNat {n : Nat} (byte : n < 256) :
    isContinuation (.ofNat n) = true ↔ 128 ≤ n ∧ n < 192 := by
  have value : (UInt8.ofNat n).toNat = n := UInt8.toNat_ofNat_of_lt' byte
  simp only [isContinuation, Bool.and_eq_true, decide_eq_true_eq, UInt8.le_iff_toNat_le,
    UInt8.lt_iff_toNat_lt, value]
  rfl

theorem utf8EncodeChar_shape (c : Char) : ∃ b tail, String.utf8EncodeChar c = b :: tail ∧
    isContinuation b = false ∧ ∀ x ∈ tail, isContinuation x = true := by
  have bound : c.val.toNat < 0x110000 := by
    rcases c.valid with low | ⟨-, high⟩
    · exact Nat.lt_trans low (by decide)
    · exact high
  have first {n : Nat} (inside : n < 0x80 ∨ 0xC0 ≤ n) (byte : n < 256) :
      isContinuation (.ofNat n) = false := by
    rw [← Bool.not_eq_true, isContinuation_ofNat byte]
    omega
  have later (n : Nat) : isContinuation (.ofNat (n % 64 + 128)) = true :=
    (isContinuation_ofNat (by omega)).mpr (by omega)
  have none : ∀ x ∈ ([] : List UInt8), isContinuation x = true :=
    fun x mem => absurd mem List.not_mem_nil
  rw [String.utf8EncodeChar]
  split_ifs
  · exact ⟨_, _, rfl, first (.inl (by omega)) (by omega), none⟩
  · refine ⟨_, _, rfl, first (.inr (by omega)) (by omega), ?_⟩
    exact List.forall_mem_cons.mpr ⟨later _, none⟩
  · refine ⟨_, _, rfl, first (.inr (by omega)) (by omega), ?_⟩
    exact List.forall_mem_cons.mpr ⟨later _, List.forall_mem_cons.mpr ⟨later _, none⟩⟩
  · refine ⟨_, _, rfl, first (.inr (by omega)) (by omega), ?_⟩
    exact List.forall_mem_cons.mpr ⟨later _, List.forall_mem_cons.mpr ⟨later _,
      List.forall_mem_cons.mpr ⟨later _, none⟩⟩⟩

@[simp] theorem encodeChars_cons (c : Char) (cs : List Char) :
    encodeChars (c :: cs) = String.utf8EncodeChar c ++ encodeChars cs := rfl

theorem charBoundary_inside {c : Char} {rest : List UInt8} {i : Nat} (inside : i < c.utf8Size) :
    charBoundary (String.utf8EncodeChar c ++ rest) i = 0 := by
  obtain ⟨b, tail, shape, -, continues⟩ := utf8EncodeChar_shape c
  have size : c.utf8Size = tail.length + 1 := by
    rw [← String.length_utf8EncodeChar, shape, List.length_cons]
  induction i with
  | zero => rfl
  | succ i ih =>
    have there : i < tail.length := by omega
    have here : (String.utf8EncodeChar c ++ rest)[i + 1]? = some tail[i] := by
      rw [shape, List.cons_append, List.getElem?_cons_succ,
        List.getElem?_append_left (by omega), List.getElem?_eq_getElem]
    have no : isCharBoundary (String.utf8EncodeChar c ++ rest) (i + 1) = false := by
      rw [isCharBoundary, here]
      simp [continues _ (List.getElem_mem _)]
    rw [charBoundary, no, if_neg Bool.false_ne_true]
    exact ih (by omega)

theorem isCharBoundary_after {c : Char} {cs : List Char} {i : Nat} :
    isCharBoundary (encodeChars (c :: cs)) (c.utf8Size + i) = isCharBoundary (encodeChars cs) i := by
  have skip : (encodeChars (c :: cs))[c.utf8Size + i]? = (encodeChars cs)[i]? := by
    rw [encodeChars_cons, List.getElem?_append_right (by simp)]
    simp
  have total : (encodeChars (c :: cs)).length = c.utf8Size + (encodeChars cs).length := by simp
  have positive := c.utf8Size_pos
  rw [isCharBoundary, isCharBoundary, skip, total]
  cases i with
  | succ i =>
    rw [show (c.utf8Size + (i + 1) == 0) = false from beq_eq_false_iff_ne.mpr (by omega)]
    cases (encodeChars cs)[i + 1]? with
    | some b => simp
    | none => simp
  | zero =>
    cases cs with
    | nil => simp [encodeChars]
    | cons d ds =>
      obtain ⟨b, tail, shape, start, -⟩ := utf8EncodeChar_shape d
      rw [encodeChars_cons, shape]
      simp [start]

theorem charBoundary_after {c : Char} {cs : List Char} {i : Nat} :
    charBoundary (encodeChars (c :: cs)) (c.utf8Size + i) =
      c.utf8Size + charBoundary (encodeChars cs) i := by
  induction i with
  | zero =>
    obtain ⟨n, size⟩ := Nat.exists_eq_add_one_of_ne_zero (Nat.ne_of_gt c.utf8Size_pos)
    have boundary : isCharBoundary (encodeChars (c :: cs)) (c.utf8Size + 0) = _ := isCharBoundary_after
    rw [Nat.add_zero, size] at boundary
    rw [Nat.add_zero, size, charBoundary, charBoundary, boundary]
    rfl
  | succ i ih =>
    rw [← Nat.add_assoc, charBoundary, charBoundary, Nat.add_assoc, isCharBoundary_after, ih]
    split <;> rfl

theorem take_charBoundary (cs : List Char) (max : Nat) :
    (encodeChars cs).take (charBoundary (encodeChars cs) max) = encodeChars (cutChars max cs) := by
  induction cs generalizing max with
  | nil => simp [encodeChars, cutChars]
  | cons c cs ih =>
    rw [cutChars]
    split
    next fits =>
      obtain ⟨more, rfl⟩ := Nat.exists_eq_add_of_le fits
      rw [charBoundary_after, Nat.add_sub_cancel_left, encodeChars_cons, encodeChars_cons, ← ih]
      rw [← String.length_utf8EncodeChar, List.take_length_add_append]
    next beyond =>
      rw [encodeChars_cons, charBoundary_inside (by omega)]
      rfl

theorem length_cutChars (max : Nat) (cs : List Char) :
    (encodeChars (cutChars max cs)).length ≤ max := by
  induction cs generalizing max with
  | nil => exact Nat.zero_le _
  | cons c cs ih =>
    rw [cutChars]
    split
    next fits =>
      have rest := ih (max - c.utf8Size)
      rw [encodeChars_cons, List.length_append, String.length_utf8EncodeChar]
      omega
    next => exact Nat.zero_le _

theorem cutChars_prefix (max : Nat) (cs : List Char) : cutChars max cs <+: cs := by
  induction cs generalizing max with
  | nil => exact List.prefix_rfl
  | cons c rest ih =>
    rw [cutChars]
    split
    next fits => exact (List.prefix_cons_inj c).mpr (ih _)
    next => exact List.nil_prefix

theorem cutChars_of_fits {max : Nat} {cs : List Char} (fits : (encodeChars cs).length ≤ max) :
    cutChars max cs = cs := by
  induction cs generalizing max with
  | nil => rfl
  | cons c cs ih =>
    rw [encodeChars_cons, List.length_append, String.length_utf8EncodeChar] at fits
    rw [cutChars, if_pos (by omega), ih (by omega)]

theorem utf8_cut (max : Nat) (s : String) : utf8 (cut max s) = encodeChars (cutChars max s.toList) := by
  rw [utf8, cut, String.toList_ofList]

theorem length_utf8_cut (max : Nat) (s : String) : (utf8 (cut max s)).length ≤ max := by
  rw [utf8_cut]
  exact length_cutChars max s.toList

theorem cut_of_fits {max : Nat} {s : String} (fits : (utf8 s).length ≤ max) : cut max s = s := by
  rw [cut, cutChars_of_fits fits, String.ofList_toList]

end Boundaries

section Lossy

def decodeChar (bytes : List UInt8) : Option Char := bytes.toByteArray.utf8DecodeChar? 0

-- Whether a character of three or four bytes can start with these two.
def startsLong (b₀ b₁ : UInt8) : Bool :=
  (b₀ == 0xE0 && 0xA0 ≤ b₁ && b₁ ≤ 0xBF) ||
  (((0xE1 ≤ b₀ && b₀ ≤ 0xEC) || b₀ == 0xEE || b₀ == 0xEF) && isContinuation b₁) ||
  (b₀ == 0xED && 0x80 ≤ b₁ && b₁ ≤ 0x9F) ||
  (b₀ == 0xF0 && 0x90 ≤ b₁ && b₁ ≤ 0xBF) ||
  (0xF1 ≤ b₀ && b₀ ≤ 0xF3 && isContinuation b₁) ||
  (b₀ == 0xF4 && 0x80 ≤ b₁ && b₁ ≤ 0x8F)

-- How many bytes of a malformed sequence one replacement character stands for.
def invalidLen : List UInt8 → Nat
  | b₀ :: b₁ :: rest =>
    if startsLong b₀ b₁ then
      match rest with
      | b₂ :: _ => if 0xF0 ≤ b₀ && isContinuation b₂ then 3 else 2
      | [] => 2
    else 1
  | _ => 1

def lossyChars : Nat → List UInt8 → List Char
  | 0, _ => []
  | _ + 1, [] => []
  | fuel + 1, b :: rest =>
    match decodeChar (b :: rest) with
    | some c => c :: lossyChars fuel ((b :: rest).drop c.utf8Size)
    | none => '\uFFFD' :: lossyChars fuel ((b :: rest).drop (invalidLen (b :: rest)))

def fromUtf8Lossy (bytes : List UInt8) : String := String.ofList (lossyChars bytes.length bytes)

def strictChars : Nat → List UInt8 → Option (List Char)
  | _, [] => some []
  | 0, _ => none
  | fuel + 1, b :: rest =>
    match decodeChar (b :: rest) with
    | some c => (strictChars fuel ((b :: rest).drop c.utf8Size)).map (c :: ·)
    | none => none

def fromUtf8 (bytes : List UInt8) : Option String := (strictChars bytes.length bytes).map String.ofList

theorem decodeChar_encodeChars (c : Char) (cs : List Char) :
    decodeChar (encodeChars (c :: cs)) = some c := by
  rw [decodeChar, encodeChars_cons, List.toByteArray_append]
  exact ByteArray.utf8DecodeChar?_utf8EncodeChar_append

theorem lossyChars_encodeChars {fuel : Nat} {cs : List Char} (enough : (encodeChars cs).length ≤ fuel) :
    lossyChars fuel (encodeChars cs) = cs := by
  induction cs generalizing fuel with
  | nil => cases fuel <;> rfl
  | cons c cs ih =>
    have decoded := decodeChar_encodeChars c cs
    have rest : (encodeChars (c :: cs)).drop c.utf8Size = encodeChars cs :=
      List.drop_left' (String.length_utf8EncodeChar c)
    have size : (encodeChars (c :: cs)).length = c.utf8Size + (encodeChars cs).length := by simp
    have positive := c.utf8Size_pos
    cases fuel with
    | zero => omega
    | succ fuel =>
      obtain ⟨b, tail, shape, -⟩ := utf8EncodeChar_shape c
      have cons : encodeChars (c :: cs) = b :: (tail ++ encodeChars cs) := by
        rw [encodeChars_cons, shape, List.cons_append]
      rw [cons] at decoded rest ⊢
      rw [lossyChars, decoded]
      dsimp only
      rw [rest, ih (by omega)]

theorem fromUtf8Lossy_utf8 (s : String) : fromUtf8Lossy (utf8 s) = s := by
  rw [fromUtf8Lossy, utf8, lossyChars_encodeChars (Nat.le_refl _), String.ofList_toList]

theorem strictChars_encodeChars {fuel : Nat} {cs : List Char} (enough : (encodeChars cs).length ≤ fuel) :
    strictChars fuel (encodeChars cs) = some cs := by
  induction cs generalizing fuel with
  | nil => cases fuel <;> rfl
  | cons c cs ih =>
    have decoded := decodeChar_encodeChars c cs
    have rest : (encodeChars (c :: cs)).drop c.utf8Size = encodeChars cs :=
      List.drop_left' (String.length_utf8EncodeChar c)
    have size : (encodeChars (c :: cs)).length = c.utf8Size + (encodeChars cs).length := by simp
    have positive := c.utf8Size_pos
    cases fuel with
    | zero => omega
    | succ fuel =>
      obtain ⟨b, tail, shape, -⟩ := utf8EncodeChar_shape c
      have cons : encodeChars (c :: cs) = b :: (tail ++ encodeChars cs) := by
        rw [encodeChars_cons, shape, List.cons_append]
      rw [cons] at decoded rest ⊢
      rw [strictChars, decoded]
      dsimp only
      rw [rest, ih (by omega), Option.map_some]

theorem fromUtf8_utf8 (s : String) : fromUtf8 (utf8 s) = some s := by
  rw [fromUtf8, utf8, strictChars_encodeChars (Nat.le_refl _), Option.map_some, String.ofList_toList]

end Lossy

end Gems.Lib
