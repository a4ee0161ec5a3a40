import Gems.Lib.Utf8
import Mathlib.Data.Nat.Bitwise
import Mathlib.Tactic.IntervalCases

set_option autoImplicit false

namespace Gems.Base64Url

open Lib

def alphabet : List Char := "ABCDEFGHIJKLMNOPQRSTUVWXYZabcdefghijklmnopqrstuvwxyz0123456789-_".toList

def letter (i : Nat) : Char := alphabet.getD i 'A'

def packed (b₀ b₁ b₂ : UInt8) : Nat := b₀.toNat <<< 16 ||| b₁.toNat <<< 8 ||| b₂.toNat

def encode : List UInt8 → List Char
  | [] => []
  | [b₀] =>
    let n := packed b₀ 0 0
    [letter (n >>> 18 &&& 0x3f), letter (n >>> 12 &&& 0x3f)]
  | [b₀, b₁] =>
    let n := packed b₀ b₁ 0
    [letter (n >>> 18 &&& 0x3f), letter (n >>> 12 &&& 0x3f), letter (n >>> 6 &&& 0x3f)]
  | b₀ :: b₁ :: b₂ :: rest =>
    let n := packed b₀ b₁ b₂
    letter (n >>> 18 &&& 0x3f) :: letter (n >>> 12 &&& 0x3f) :: letter (n >>> 6 &&& 0x3f) :: letter (n &&& 0x3f) ::
      encode rest

def value (c : UInt8) : Except String Nat :=
  if 65 ≤ c ∧ c ≤ 90 then .ok (c.toNat - 65)
  else if 97 ≤ c ∧ c ≤ 122 then .ok (c.toNat - 97 + 26)
  else if 48 ≤ c ∧ c ≤ 57 then .ok (c.toNat - 48 + 52)
  else if c = 45 then .ok 62
  else if c = 95 then .ok 63
  else .error "invalid base64url character"

def decodeBytes : List UInt8 → Except String (List UInt8)
  | [] => .ok []
  | [_] => .error "invalid base64url length"
  | [c₀, c₁] => do
    let n := (← value c₀) <<< 18 ||| (← value c₁) <<< 12
    return [.ofNat (n >>> 16)]
  | [c₀, c₁, c₂] => do
    let n := (← value c₀) <<< 18 ||| (← value c₁) <<< 12
    let m := n ||| (← value c₂) <<< 6
    return [.ofNat (n >>> 16), .ofNat (m >>> 8)]
  | c₀ :: c₁ :: c₂ :: c₃ :: rest => do
    let n := (← value c₀) <<< 18 ||| (← value c₁) <<< 12
    let m := n ||| (← value c₂) <<< 6
    let l := m ||| (← value c₃)
    return .ofNat (n >>> 16) :: .ofNat (m >>> 8) :: .ofNat l :: (← decodeBytes rest)

def decode (input : String) : Except String (List UInt8) :=
  let bytes := utf8 input
  if bytes.contains 61 then .error "base64url input must not be padded" else decodeBytes bytes

section RoundTrip

variable {i j k l : Nat} {b₀ b₁ b₂ : UInt8} {bytes : List UInt8}

theorem letter_value (small : i < 64) :
    ∃ b, String.utf8EncodeChar (letter i) = [b] ∧ value b = .ok i ∧ b ≠ 61 ∧ letter i ≠ '.' := by
  interval_cases i <;> exact ⟨_, rfl, rfl, by decide, by decide⟩

theorem or_eq_add {x y : Nat} (high : 2 ^ i ∣ x) (low : y < 2 ^ i) : x ||| y = x + y := by
  obtain ⟨z, rfl⟩ := high
  rw [Nat.mul_comm, ← Nat.shiftLeft_eq, Nat.shiftLeft_add_eq_or_of_lt low]

theorem packed_eq : packed b₀ b₁ b₂ = b₀.toNat * 65536 + b₁.toNat * 256 + b₂.toNat := by
  have small := b₁.toNat_lt
  have small' := b₂.toNat_lt
  have high : b₀.toNat <<< 16 ||| b₁.toNat <<< 8 = b₀.toNat * 65536 + b₁.toNat * 256 := by
    rw [Nat.shiftLeft_eq, Nat.shiftLeft_eq]
    exact or_eq_add (i := 16) (by omega) (by omega)
  rw [packed, high]
  exact or_eq_add (i := 8) (by omega) (by omega)

theorem sixBits (n i : Nat) : n >>> i &&& 0x3f = n / 2 ^ i % 64 := by
  rw [Nat.shiftRight_eq_div_pow]
  exact Nat.and_two_pow_sub_one_eq_mod _ 6

theorem two_letters (small : j < 64) : i <<< 18 ||| j <<< 12 = i * 262144 + j * 4096 := by
  rw [Nat.shiftLeft_eq, Nat.shiftLeft_eq]
  exact or_eq_add (i := 18) (by omega) (by omega)

theorem three_letters (small : k < 64) : i * 262144 + j * 4096 ||| k <<< 6 = i * 262144 + j * 4096 + k * 64 := by
  rw [Nat.shiftLeft_eq]
  exact or_eq_add (i := 12) (by omega) (by omega)

theorem four_letters (small : l < 64) :
    i * 262144 + j * 4096 + k * 64 ||| l = i * 262144 + j * 4096 + k * 64 + l :=
  or_eq_add (i := 6) (by omega) (by omega)

theorem ofNat_eq {n : Nat} {b : UInt8} (same : n % 256 = b.toNat) : UInt8.ofNat n = b := by
  rw [← UInt8.toNat_inj, UInt8.toNat_ofNat']
  exact same

theorem letters_packed : packed b₀ b₁ b₂ >>> 18 &&& 0x3f = b₀.toNat / 4 ∧
    packed b₀ b₁ b₂ >>> 12 &&& 0x3f = b₀.toNat % 4 * 16 + b₁.toNat / 16 ∧
    packed b₀ b₁ b₂ >>> 6 &&& 0x3f = b₁.toNat % 16 * 4 + b₂.toNat / 64 ∧
    packed b₀ b₁ b₂ &&& 0x3f = b₂.toNat % 64 := by
  have small := b₀.toNat_lt
  have small₁ := b₁.toNat_lt
  have small₂ := b₂.toNat_lt
  have last := sixBits (packed b₀ b₁ b₂) 0
  rw [Nat.shiftRight_zero] at last
  rw [sixBits, sixBits, sixBits, last, packed_eq]
  omega

theorem decodeBytes_two (i_small : i < 64) (j_small : j < 64) :
    decodeBytes (encodeChars [letter i, letter j]) = .ok [.ofNat ((i * 262144 + j * 4096) / 65536)] := by
  obtain ⟨c₀, byte₀, value₀, -⟩ := letter_value i_small
  obtain ⟨c₁, byte₁, value₁, -⟩ := letter_value j_small
  simp only [encodeChars, List.flatMap_cons, List.flatMap_nil, byte₀, byte₁, List.cons_append, List.nil_append,
    decodeBytes, value₀, value₁]
  simp only [bind, Except.bind, pure, Except.pure, two_letters j_small, Nat.shiftRight_eq_div_pow]

theorem decodeBytes_three (i_small : i < 64) (j_small : j < 64) (k_small : k < 64) :
    decodeBytes (encodeChars [letter i, letter j, letter k]) =
      .ok [.ofNat ((i * 262144 + j * 4096) / 65536), .ofNat ((i * 262144 + j * 4096 + k * 64) / 256)] := by
  obtain ⟨c₀, byte₀, value₀, -⟩ := letter_value i_small
  obtain ⟨c₁, byte₁, value₁, -⟩ := letter_value j_small
  obtain ⟨c₂, byte₂, value₂, -⟩ := letter_value k_small
  simp only [encodeChars, List.flatMap_cons, List.flatMap_nil, byte₀, byte₁, byte₂, List.cons_append, List.nil_append,
    decodeBytes, value₀, value₁, value₂]
  simp only [bind, Except.bind, pure, Except.pure, three_letters k_small, two_letters j_small,
    Nat.shiftRight_eq_div_pow]

theorem decodeBytes_four (i_small : i < 64) (j_small : j < 64) (k_small : k < 64) (l_small : l < 64) {more : List Char}
    (read : decodeBytes (encodeChars more) = .ok bytes) :
    decodeBytes (encodeChars (letter i :: letter j :: letter k :: letter l :: more)) =
      .ok (.ofNat ((i * 262144 + j * 4096) / 65536) :: .ofNat ((i * 262144 + j * 4096 + k * 64) / 256) ::
        .ofNat (i * 262144 + j * 4096 + k * 64 + l) :: bytes) := by
  obtain ⟨c₀, byte₀, value₀, -⟩ := letter_value i_small
  obtain ⟨c₁, byte₁, value₁, -⟩ := letter_value j_small
  obtain ⟨c₂, byte₂, value₂, -⟩ := letter_value k_small
  obtain ⟨c₃, byte₃, value₃, -⟩ := letter_value l_small
  simp only [encodeChars_cons, byte₀, byte₁, byte₂, byte₃, List.cons_append,
    List.nil_append, decodeBytes, value₀, value₁,
    value₂, value₃, read]
  simp only [bind, Except.bind, pure, Except.pure, four_letters l_small, three_letters k_small,
    two_letters j_small, Nat.shiftRight_eq_div_pow]

theorem decodeBytes_encode (bytes : List UInt8) : decodeBytes (encodeChars (encode bytes)) = .ok bytes := by
  induction bytes using encode.induct with
  | case1 => rfl
  | case2 b₀ =>
    have letters := @letters_packed b₀ 0 0
    have small₀ := b₀.toNat_lt
    rw [encode]
    simp only [letters.1, letters.2.1, UInt8.toNat_zero]
    rw [decodeBytes_two (by omega) (by omega), ofNat_eq (b := b₀) (by omega)]
  | case3 b₀ b₁ =>
    have letters := @letters_packed b₀ b₁ 0
    have small₀ := b₀.toNat_lt
    have small₁ := b₁.toNat_lt
    rw [encode]
    simp only [letters.1, letters.2.1, letters.2.2.1, UInt8.toNat_zero]
    rw [decodeBytes_three (by omega) (by omega) (by omega),
      ofNat_eq (b := b₀) (by omega), ofNat_eq (b := b₁) (by omega)]
  | case4 b₀ b₁ b₂ rest ih =>
    have letters := @letters_packed b₀ b₁ b₂
    have small₀ := b₀.toNat_lt
    have small₁ := b₁.toNat_lt
    have small₂ := b₂.toNat_lt
    rw [encode]
    simp only [letters.1, letters.2.1, letters.2.2.1, letters.2.2.2]
    rw [decodeBytes_four (by omega) (by omega) (by omega) (by omega) ih, ofNat_eq (b := b₀) (by omega),
      ofNat_eq (b := b₁) (by omega), ofNat_eq (b := b₂) (by omega)]

theorem letters_encode (bytes : List UInt8) : ∀ c ∈ encode bytes, ∃ i < 64, c = letter i := by
  have six (n : Nat) : n &&& 0x3f < 64 := Nat.and_lt_two_pow n (by decide : 0x3f < 2 ^ 6)
  induction bytes using encode.induct with
  | case1 => simp [encode]
  | case2 b₀ =>
    simp only [encode, List.mem_cons, List.not_mem_nil, or_false]
    rintro c (rfl | rfl)
    all_goals exact ⟨_, six _, rfl⟩
  | case3 b₀ b₁ =>
    simp only [encode, List.mem_cons, List.not_mem_nil, or_false]
    rintro c (rfl | rfl | rfl)
    all_goals exact ⟨_, six _, rfl⟩
  | case4 b₀ b₁ b₂ rest ih =>
    simp only [encode, List.mem_cons]
    rintro c (rfl | rfl | rfl | rfl | mem)
    next => exact ⟨_, six _, rfl⟩
    next => exact ⟨_, six _, rfl⟩
    next => exact ⟨_, six _, rfl⟩
    next => exact ⟨_, six _, rfl⟩
    next => exact ih c mem

theorem dot_not_mem_encode (bytes : List UInt8) : '.' ∉ encode bytes := by
  intro mem
  obtain ⟨i, small, is⟩ := letters_encode bytes _ mem
  obtain ⟨-, -, -, -, other⟩ := letter_value small
  exact other is.symm

theorem decode_encode (bytes : List UInt8) : decode (String.ofList (encode bytes)) = .ok bytes := by
  have unpadded : (utf8 (String.ofList (encode bytes))).contains 61 = false := by
    rw [utf8, String.toList_ofList, List.contains_eq_mem, decide_eq_false_iff_not, encodeChars, List.mem_flatMap]
    rintro ⟨c, mem, byte⟩
    obtain ⟨i, small, rfl⟩ := letters_encode bytes c mem
    obtain ⟨b, bytes, -, other, -⟩ := letter_value small
    rw [bytes, List.mem_singleton] at byte
    exact other byte.symm
  have read := decodeBytes_encode bytes
  rw [decode, unpadded, if_neg Bool.false_ne_true, utf8, String.toList_ofList, read]

end RoundTrip

end Gems.Base64Url
