import Mathlib.Data.BitVec
import Mathlib.Logic.Function.Iterate
import Gems.Lib.Bytes

set_option autoImplicit false

namespace Gems.Lib.Crc

variable {w : Nat}

-- One step of the register, lowest bit first.
def shift (poly c : BitVec w) : BitVec w := if c.getLsbD 0 then poly ^^^ (c >>> 1) else c >>> 1

def feed (poly c : BitVec w) (byte : UInt8) : BitVec w := (shift poly)^[8] (c ^^^ byte.toBitVec.setWidth w)

def run (poly c : BitVec w) (bytes : List UInt8) : BitVec w := bytes.foldl (feed poly) c

def packed (w : Nat) : List UInt8 → BitVec w
  | [] => 0
  | byte :: rest => byte.toBitVec.setWidth w ^^^ (packed w rest <<< 8)

section Shift

variable {poly : BitVec w}

theorem shift_xor (a b : BitVec w) : shift poly (a ^^^ b) = shift poly a ^^^ shift poly b := by
  have cancel : a >>> 1 ^^^ b >>> 1 = poly ^^^ a >>> 1 ^^^ (poly ^^^ b >>> 1) := by
    rw [BitVec.xor_comm poly (a >>> 1), BitVec.xor_assoc, ← BitVec.xor_assoc poly, BitVec.xor_self,
      BitVec.zero_xor]
  simp only [shift, BitVec.getLsbD_xor, BitVec.ushiftRight_xor_distrib]
  cases a.getLsbD 0 <;> cases b.getLsbD 0 <;> simp [← cancel] <;> ac_rfl

theorem iterate_xor (n : Nat) (a b : BitVec w) :
    (shift poly)^[n] (a ^^^ b) = (shift poly)^[n] a ^^^ (shift poly)^[n] b := by
  induction n generalizing a b with
  | zero => rfl
  | succ n ih => simp only [Function.iterate_succ_apply, shift_xor, ih]

theorem shift_eq_zero (top : poly.msb = true) {c : BitVec w} (zero : shift poly c = 0) : c = 0 := by
  have positive : 0 < w := by
    cases w with
    | zero => simp [BitVec.of_length_zero] at top
    | succ w => exact w.succ_pos
  have low : c.getLsbD 0 = false := by
    by_contra set
    have leaves : (shift poly c).msb = false := by simp [zero]
    rw [shift, if_pos (by simpa using set), BitVec.msb_xor, top] at leaves
    simp [BitVec.msb_ushiftRight] at leaves
  apply BitVec.eq_of_getLsbD_eq
  intro i inside
  cases i with
  | zero => simpa using low
  | succ i =>
    have bit : (c >>> 1).getLsbD i = false := by
      simp [shift, low] at zero
      simp [zero]
    simpa [Nat.add_comm] using bit

theorem shift_injective (top : poly.msb = true) : Function.Injective (shift poly) := by
  intro a b same
  have zero : shift poly (a ^^^ b) = 0 := by
    rw [shift_xor, same]
    exact BitVec.xor_self
  exact BitVec.xor_eq_zero_iff.mp (shift_eq_zero top zero)

-- Bits that have not come down to the lowest place yet only move.
theorem iterate_shiftLeft (n : Nat) {c : BitVec w} (clear : ∀ i, w - n ≤ i → c.getLsbD i = false) :
    (shift poly)^[n] (c <<< n) = c := by
  induction n generalizing c with
  | zero => simp
  | succ n ih =>
    have next : shift poly (c <<< (n + 1)) = c <<< n := by
      rw [shift, if_neg (by simp)]
      apply BitVec.eq_of_getLsbD_eq
      intro i inside
      have moved : 1 + i - (n + 1) = i - n := by omega
      simp only [BitVec.getLsbD_ushiftRight, BitVec.getLsbD_shiftLeft, moved]
      by_cases below : i < n
      next => simp [below, Nat.add_comm 1 i]
      next =>
        by_cases last : i + 1 < w
        next => simp [inside, below, Nat.add_comm 1 i, last]
        next => simp [clear (i - n) (by omega)]
    rw [Function.iterate_succ_apply, next, ih fun i high => clear i (by omega)]

-- The low bits go through the register, the others only move.
theorem iterate_low (n : Nat) (c : BitVec w) :
    (shift poly)^[n] c = (shift poly)^[n] (c &&& BitVec.ofNat w (2 ^ n - 1)) ^^^ c >>> n := by
  have parts : c = (c &&& BitVec.ofNat w (2 ^ n - 1)) ^^^ (c >>> n) <<< n := by
    apply BitVec.eq_of_getLsbD_eq
    intro i inside
    simp only [BitVec.getLsbD_xor, BitVec.getLsbD_and, BitVec.getLsbD_ofNat, Nat.testBit_two_pow_sub_one,
      BitVec.getLsbD_shiftLeft, BitVec.getLsbD_ushiftRight]
    by_cases low : i < n
    next => simp [low, inside]
    next => simp [low, inside, Nat.add_sub_cancel' (Nat.not_lt.mp low)]
  have clear : ∀ i, w - n ≤ i → (c >>> n).getLsbD i = false :=
    fun i high => by simp [BitVec.getLsbD_of_ge c (n + i) (by omega)]
  conv_lhs => rw [parts, iterate_xor, iterate_shiftLeft n clear]

end Shift

section Packed

theorem packed_clear (bytes : List UInt8) {i : Nat} (high : 8 * bytes.length ≤ i) :
    (packed w bytes).getLsbD i = false := by
  induction bytes generalizing i with
  | nil => simp [packed]
  | cons byte rest ih =>
    rw [List.length_cons] at high
    have beyond : byte.toBitVec.getLsbD i = false := BitVec.getLsbD_of_ge _ _ (by omega)
    simp [packed, BitVec.getLsbD_setWidth, beyond, ih (i := i - 8) (by omega)]

theorem packed_bit {bytes : List UInt8} {i j : Nat} {byte : UInt8} (here : bytes[j]? = some byte)
    (low : i < 8) (inside : 8 * j + i < w) : (packed w bytes).getLsbD (8 * j + i) = byte.toBitVec.getLsbD i := by
  induction bytes generalizing j with
  | nil => simp at here
  | cons first rest ih =>
    cases j with
    | zero =>
      obtain rfl : first = byte := by simpa using here
      have small : i < w := by omega
      simp [packed, low, small]
    | succ j =>
      have beyond : first.toBitVec.getLsbD (8 * (j + 1) + i) = false := BitVec.getLsbD_of_ge _ _ (by omega)
      have later : 8 * (j + 1) + i - 8 = 8 * j + i := by omega
      rw [packed, BitVec.getLsbD_xor, BitVec.getLsbD_setWidth, beyond, BitVec.getLsbD_shiftLeft, later,
        ih (by simpa using here) (by omega)]
      simp [inside]
      omega

theorem packed_eq (bytes : List UInt8) : packed w bytes = BitVec.ofNat w (ofLittleEndian bytes) := by
  induction bytes with
  | nil => rfl
  | cons byte rest ih =>
    apply BitVec.eq_of_getLsbD_eq
    intro i inside
    have value : ofLittleEndian (byte :: rest) = 2 ^ 8 * ofLittleEndian rest + byte.toNat := Nat.add_comm ..
    rw [packed, ih, value]
    simp only [BitVec.getLsbD_xor, BitVec.getLsbD_shiftLeft, BitVec.getLsbD_ofNat, BitVec.getLsbD_setWidth,
      Nat.testBit_two_pow_mul_add _ byte.toNat_lt]
    by_cases low : i < 8
    next => simp [low, inside, BitVec.getLsbD]
    next =>
      have beyond : byte.toBitVec.getLsbD i = false := BitVec.getLsbD_of_ge _ _ (by omega)
      simp [low, inside, beyond]
      omega

theorem packed_inj {xs ys : List UInt8} (same : xs.length = ys.length) (fits : 8 * xs.length ≤ w)
    (eq : packed w xs = packed w ys) : xs = ys := by
  apply List.ext_getElem same
  intro j left right
  apply UInt8.toBitVec_inj.mp
  apply BitVec.eq_of_getLsbD_eq
  intro i low
  have inside : 8 * j + i < w := by omega
  rw [← packed_bit (List.getElem?_eq_getElem left) low inside, eq,
    packed_bit (List.getElem?_eq_getElem right) low inside]

end Packed

section Run

variable {poly : BitVec w}

-- Bytes that fit the register can all be taken in before the first step.
theorem run_packed (c : BitVec w) (bytes : List UInt8) (fits : 8 * bytes.length ≤ w) :
    run poly c bytes = (shift poly)^[8 * bytes.length] (c ^^^ packed w bytes) := by
  induction bytes generalizing c with
  | nil => simp [run, packed]
  | cons byte rest ih =>
    rw [List.length_cons] at fits
    have clear : ∀ i, w - 8 ≤ i → (packed w rest).getLsbD i = false :=
      fun i high => packed_clear rest (by omega)
    calc run poly c (byte :: rest)
        = (shift poly)^[8 * rest.length] (feed poly c byte ^^^ packed w rest) := ih _ (by omega)
      _ = (shift poly)^[8 * rest.length] ((shift poly)^[8] (c ^^^ packed w (byte :: rest))) := by
        rw [packed, ← BitVec.xor_assoc, iterate_xor 8, iterate_shiftLeft 8 clear, feed]
      _ = (shift poly)^[8 * (byte :: rest).length] (c ^^^ packed w (byte :: rest)) := by
        rw [← Function.iterate_add_apply, List.length_cons, Nat.mul_succ]

theorem run_append (c : BitVec w) (xs ys : List UInt8) : run poly c (xs ++ ys) = run poly (run poly c xs) ys :=
  List.foldl_append

theorem run_injective (top : poly.msb = true) (bytes : List UInt8) :
    Function.Injective fun c => run poly c bytes := by
  induction bytes with
  | nil => exact Function.injective_id
  | cons byte rest ih =>
    intro c d same
    have fed : feed poly c byte = feed poly d byte := ih same
    exact (BitVec.xor_left_inj _).mp ((shift_injective top).iterate 8 fed)

/-- A difference within a window no wider than the register shows at the end of the run. -/
theorem burst (top : poly.msb = true) {c : BitVec w} {xs ys : List UInt8} (same : xs.length = ys.length)
    {start width : Nat} (narrow : 8 * width ≤ w)
    (outside : ∀ i, i < start ∨ start + width ≤ i → xs[i]? = ys[i]?)
    (ran : run poly c xs = run poly c ys) : xs = ys := by
  have before : xs.take start = ys.take start := by
    apply List.ext_getElem?
    intro i
    by_cases early : i < start
    next => rw [List.getElem?_take_of_lt early, List.getElem?_take_of_lt early, outside i (.inl early)]
    next => rw [List.getElem?_eq_none (by simp; omega), List.getElem?_eq_none (by simp; omega)]
  have after : (xs.drop start).drop width = (ys.drop start).drop width := by
    apply List.ext_getElem?
    intro i
    simp only [List.getElem?_drop]
    exact outside _ (.inr (by omega))
  have parts (zs : List UInt8) :
      zs = zs.take start ++ ((zs.drop start).take width ++ (zs.drop start).drop width) := by simp
  have lengths : ((xs.drop start).take width).length = ((ys.drop start).take width).length := by simp [same]
  have short : 8 * ((xs.drop start).take width).length ≤ w := by
    rw [List.length_take]
    omega
  rw [parts xs, parts ys, before, after] at ran
  simp only [run_append] at ran
  have window := run_injective top _ ran
  have short' := lengths ▸ short
  simp only [run_packed _ _ short, run_packed _ _ short', lengths] at window
  have packs := (BitVec.xor_right_inj _).mp ((shift_injective top).iterate _ window)
  rw [parts xs, parts ys, before, after, packed_inj lengths short packs]

theorem run_sealed (c : BitVec w) {xs sum : List UInt8} (whole : 8 * sum.length = w)
    (sealed : packed w sum = ~~~run poly c xs) : run poly c (xs ++ sum) = (shift poly)^[w] (BitVec.allOnes w) := by
  rw [run_append, run_packed _ sum whole.le, sealed, whole, ← BitVec.not_xor_right, BitVec.xor_self,
    BitVec.not_zero]

end Run

end Gems.Lib.Crc
