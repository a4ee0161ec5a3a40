import Gems.Lib.Bytes
import Gems.Lib.Crc
import Mathlib.Logic.Function.Iterate

set_option autoImplicit false

namespace Gems

-- Reversed Castagnoli polynomial.
def crcPoly : UInt32 := 0x82f63b78

def crcShift (c : UInt32) : UInt32 := if c &&& 1 != 0 then crcPoly ^^^ (c >>> 1) else c >>> 1

-- One entry of the byte table.
def crcTable (i : UInt32) : UInt32 := crcShift^[8] i

def crc32c (data : List UInt8) : UInt32 :=
  ~~~data.foldl (fun crc byte => crcTable ((crc ^^^ byte.toUInt32) &&& 0xff) ^^^ (crc >>> 8)) (~~~0)

example : crc32c [49, 50, 51, 52, 53, 54, 55, 56, 57] = 0xE3069283 := by decide +kernel

section Register

open Lib

theorem crcShift_toBitVec (c : UInt32) : (crcShift c).toBitVec = Crc.shift crcPoly.toBitVec c.toBitVec := by
  have low : (c &&& 1 != 0) = c.toBitVec.getLsbD 0 := by
    have bit : (c &&& 1).toBitVec = (BitVec.ofBool (c.toBitVec.getLsbD 0)).setWidth 32 := by
      rw [UInt32.toBitVec_and]
      exact BitVec.and_one_eq_setWidth_ofBool_getLsbD
    cases set : c.toBitVec.getLsbD 0 with
    | false =>
      have zero : c &&& 1 = 0 := UInt32.toBitVec_inj.mp (by rw [bit, set]; rfl)
      simp [zero]
    | true =>
      have one : c &&& 1 = 1 := UInt32.toBitVec_inj.mp (by rw [bit, set]; rfl)
      simp [one]
  rw [crcShift, low, Crc.shift]
  split <;> simp

theorem crcTable_toBitVec (c : UInt32) :
    (crcTable c).toBitVec = (Crc.shift crcPoly.toBitVec)^[8] c.toBitVec := by
  rw [crcTable]
  generalize 8 = n
  induction n generalizing c with
  | zero => rfl
  | succ n ih => rw [Function.iterate_succ_apply, ih, crcShift_toBitVec, ← Function.iterate_succ_apply]

-- The table gives what eight steps of the register give.
theorem crcStep_toBitVec (crc : UInt32) (byte : UInt8) :
    (crcTable ((crc ^^^ byte.toUInt32) &&& 0xff) ^^^ (crc >>> 8)).toBitVec =
      Crc.feed crcPoly.toBitVec crc.toBitVec byte := by
  have gone : byte.toBitVec.setWidth 32 >>> 8 = 0#32 := by
    apply BitVec.eq_of_toNat_eq
    simp [Nat.shiftRight_eq_div_pow, Nat.div_eq_of_lt byte.toNat_lt]
  have rest : crc.toBitVec >>> 8 = (crc.toBitVec ^^^ byte.toBitVec.setWidth 32) >>> 8 := by
    rw [BitVec.ushiftRight_xor_distrib, gone, BitVec.xor_zero]
  rw [UInt32.toBitVec_xor, crcTable_toBitVec, Crc.feed, Crc.iterate_low 8 (crc.toBitVec ^^^ _), ← rest]
  rfl

theorem crc32c_toBitVec (data : List UInt8) :
    (crc32c data).toBitVec = ~~~Crc.run crcPoly.toBitVec (BitVec.allOnes 32) data := by
  have run (c : UInt32) : (data.foldl (fun crc byte =>
      crcTable ((crc ^^^ byte.toUInt32) &&& 0xff) ^^^ (crc >>> 8)) c).toBitVec =
        Crc.run crcPoly.toBitVec c.toBitVec data := by
    induction data generalizing c with
    | nil => rfl
    | cons byte rest ih => rw [List.foldl_cons, ih, crcStep_toBitVec, Crc.run, Crc.run, List.foldl_cons]
  rw [crc32c, UInt32.toBitVec_not, run]
  rfl

theorem crc32c_burst {xs ys sum sum' : List UInt8} (same : xs.length = ys.length)
    (four : sum.length = 4) (four' : sum'.length = 4)
    (holds : ofLittleEndian sum = (crc32c xs).toNat) (holds' : ofLittleEndian sum' = (crc32c ys).toNat)
    {start : Nat} (outside : ∀ i, i < start ∨ start + 4 ≤ i → (xs ++ sum)[i]? = (ys ++ sum')[i]?) :
    xs ++ sum = ys ++ sum' := by
  have sealed {zs sum : List UInt8} (four : sum.length = 4) (holds : ofLittleEndian sum = (crc32c zs).toNat) :
      Crc.packed 32 sum = ~~~Crc.run crcPoly.toBitVec (BitVec.allOnes 32) zs := by
    rw [Crc.packed_eq, holds, ← crc32c_toBitVec]
    exact BitVec.ofNat_toNat ..
  have ran : Crc.run crcPoly.toBitVec (BitVec.allOnes 32) (xs ++ sum) =
      Crc.run crcPoly.toBitVec (BitVec.allOnes 32) (ys ++ sum') := by
    rw [Crc.run_sealed _ (by rw [four]) (sealed four holds), Crc.run_sealed _ (by rw [four']) (sealed four' holds')]
  exact Crc.burst (by decide) (by simp [same, four, four']) (by decide : 8 * 4 ≤ 32) outside ran

end Register

end Gems
