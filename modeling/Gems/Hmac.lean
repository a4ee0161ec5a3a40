import Gems.Lib.Bytes

set_option autoImplicit false

namespace Gems

open Lib

section Sha256

def sha256K : List UInt32 := [
  0x428a2f98, 0x71374491, 0xb5c0fbcf, 0xe9b5dba5, 0x3956c25b, 0x59f111f1, 0x923f82a4, 0xab1c5ed5,
  0xd807aa98, 0x12835b01, 0x243185be, 0x550c7dc3, 0x72be5d74, 0x80deb1fe, 0x9bdc06a7, 0xc19bf174,
  0xe49b69c1, 0xefbe4786, 0x0fc19dc6, 0x240ca1cc, 0x2de92c6f, 0x4a7484aa, 0x5cb0a9dc, 0x76f988da,
  0x983e5152, 0xa831c66d, 0xb00327c8, 0xbf597fc7, 0xc6e00bf3, 0xd5a79147, 0x06ca6351, 0x14292967,
  0x27b70a85, 0x2e1b2138, 0x4d2c6dfc, 0x53380d13, 0x650a7354, 0x766a0abb, 0x81c2c92e, 0x92722c85,
  0xa2bfe8a1, 0xa81a664b, 0xc24b8b70, 0xc76c51a3, 0xd192e819, 0xd6990624, 0xf40e3585, 0x106aa070,
  0x19a4c116, 0x1e376c08, 0x2748774c, 0x34b0bcb5, 0x391c0cb3, 0x4ed8aa4a, 0x5b9cca4f, 0x682e6ff3,
  0x748f82ee, 0x78a5636f, 0x84c87814, 0x8cc70208, 0x90befffa, 0xa4506ceb, 0xbef9a3f7, 0xc67178f2]

structure HashState where
  a : UInt32
  b : UInt32
  c : UInt32
  d : UInt32
  e : UInt32
  f : UInt32
  g : UInt32
  h : UInt32

def sha256H0 : HashState :=
  ⟨0x6a09e667, 0xbb67ae85, 0x3c6ef372, 0xa54ff53a, 0x510e527f, 0x9b05688c, 0x1f83d9ab, 0x5be0cd19⟩

def bigEndian (width n : Nat) : List UInt8 := (littleEndian width n).reverse

def ofBigEndian (bytes : List UInt8) : Nat := ofLittleEndian bytes.reverse

def rotateRight (x n : UInt32) : UInt32 := (x >>> n) ||| (x <<< (32 - n))

-- `input`, a one bit, zeroes up to the length field, and the length in bits.
def sha256Pad (input : List UInt8) : List UInt8 :=
  input ++ [0x80] ++ List.replicate ((119 - input.length % 64) % 64) 0 ++
    bigEndian 8 (input.length * 8)

def sha256Schedule (chunk : List UInt8) : List UInt32 :=
  (List.range 48).foldl
    (fun w i =>
      let w15 := w.getD (i + 1) 0
      let w2 := w.getD (i + 14) 0
      let s0 := rotateRight w15 7 ^^^ rotateRight w15 18 ^^^ (w15 >>> 3)
      let s1 := rotateRight w2 17 ^^^ rotateRight w2 19 ^^^ (w2 >>> 10)
      w ++ [w.getD i 0 + s0 + w.getD (i + 9) 0 + s1])
    (readMany 4 (fun word => UInt32.ofNat (ofBigEndian word)) 16 chunk)

def sha256Round (v : HashState) (kw : UInt32 × UInt32) : HashState :=
  let s1 := rotateRight v.e 6 ^^^ rotateRight v.e 11 ^^^ rotateRight v.e 25
  let ch := (v.e &&& v.f) ^^^ (~~~v.e &&& v.g)
  let temp1 := v.h + s1 + ch + kw.1 + kw.2
  let s0 := rotateRight v.a 2 ^^^ rotateRight v.a 13 ^^^ rotateRight v.a 22
  let maj := (v.a &&& v.b) ^^^ (v.a &&& v.c) ^^^ (v.b &&& v.c)
  let temp2 := s0 + maj
  ⟨temp1 + temp2, v.a, v.b, v.c, v.d + temp1, v.e, v.f, v.g⟩

def sha256Block (v : HashState) (chunk : List UInt8) : HashState :=
  let w := (sha256K.zip (sha256Schedule chunk)).foldl sha256Round v
  ⟨v.a + w.a, v.b + w.b, v.c + w.c, v.d + w.d, v.e + w.e, v.f + w.f, v.g + w.g, v.h + w.h⟩

def sha256 (input : List UInt8) : List UInt8 :=
  let padded := sha256Pad input
  let v := (readMany 64 id (padded.length / 64) padded).foldl sha256Block sha256H0
  [v.a, v.b, v.c, v.d, v.e, v.f, v.g, v.h].flatMap fun word => bigEndian 4 word.toNat

def tagLen : Nat := 32

theorem length_sha256 (input : List UInt8) : (sha256 input).length = tagLen := by
  simp [sha256, bigEndian, tagLen]

-- The digest of "abc".
example : sha256 [97, 98, 99] = [
    0xba, 0x78, 0x16, 0xbf, 0x8f, 0x01, 0xcf, 0xea, 0x41, 0x41, 0x40, 0xde, 0x5d, 0xae, 0x22, 0x23,
    0xb0, 0x03, 0x61, 0xa3, 0x96, 0x17, 0x7a, 0x9c, 0xb4, 0x10, 0xff, 0x61, 0xf2, 0x00, 0x15, 0xad] := by
  decide +kernel

end Sha256

section Hmac

def blockLen : Nat := 64

def hmacSha256 (key message : List UInt8) : List UInt8 :=
  let short := if key.length > blockLen then sha256 key else key
  let blockKey := short ++ List.replicate (blockLen - short.length) 0
  let ipad := blockKey.map fun b => 0x36 ^^^ b
  let opad := blockKey.map fun b => 0x5c ^^^ b
  sha256 (opad ++ sha256 (ipad ++ message))

def constantTimeEq (a b : List UInt8) : Bool :=
  if a.length ≠ b.length then false
  else (a.zip b).foldl (fun diff (x, y) => diff ||| (x ^^^ y)) 0 == 0

theorem length_hmacSha256 (key message : List UInt8) : (hmacSha256 key message).length = tagLen :=
  length_sha256 _

theorem constantTimeEq_refl (a : List UInt8) : constantTimeEq a a = true := by
  have nothing (a : List UInt8) :
      (a.zip a).foldl (fun diff (x, y) => diff ||| (x ^^^ y)) (0 : UInt8) = 0 := by
    induction a with
    | nil => rfl
    | cons b rest ih =>
      rw [List.zip_cons_cons, List.foldl_cons]
      simpa using ih
  rw [constantTimeEq, if_neg (fun no => no rfl), nothing]
  rfl

theorem constantTimeEq_iff {a b : List UInt8} : constantTimeEq a b = true ↔ a = b := by
  have folded (d : UInt8) (a b : List UInt8) (size : a.length = b.length) :
      (a.zip b).foldl (fun diff (x, y) => diff ||| (x ^^^ y)) d = 0 ↔ d = 0 ∧ a = b := by
    induction a generalizing b d with
    | nil =>
      rw [List.eq_nil_of_length_eq_zero size.symm]
      simp
    | cons x a ih =>
      cases b with
      | nil => cases size
      | cons y b =>
        rw [List.zip_cons_cons, List.foldl_cons, ih _ _ (Nat.succ.inj size),
          UInt8.or_eq_zero_iff, UInt8.xor_eq_zero_iff,
          List.cons.injEq, and_assoc]
  rw [constantTimeEq]
  split
  next differ =>
    constructor
    next => exact fun no => absurd no Bool.false_ne_true
    next => exact fun same => absurd (congrArg List.length same) differ
  next size =>
    rw [beq_iff_eq, folded 0 a b (not_not.mp size)]
    simp

end Hmac

end Gems
