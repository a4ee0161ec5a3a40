import Mathlib.Data.Nat.Bitwise
import Mathlib.Data.List.Basic

set_option autoImplicit false

namespace Gems.Lib

-- The contents of a file: every offset holds a byte, those never written a zero.
abbrev Bytes := Nat → UInt8

def slice (bytes : Bytes) (offset len : Nat) : List UInt8 :=
  (List.range len).map fun i => bytes (offset + i)

def patch (bytes : Bytes) (offset : Nat) (data : List UInt8) : Bytes := fun i =>
  if offset ≤ i then (data[i - offset]?).getD (bytes i) else bytes i

-- Everything from `len` on reads as zero.
def truncate (bytes : Bytes) (len : Nat) : Bytes := fun i => if i < len then bytes i else 0

section Slices

variable {bytes bytes' : Bytes} {offset len : Nat} {data : List UInt8}

@[simp] theorem length_slice : (slice bytes offset len).length = len := by
  simp [slice]

theorem patch_outside {i : Nat} (h : i < offset ∨ offset + data.length ≤ i) :
    patch bytes offset data i = bytes i := by
  unfold patch
  split
  next le =>
    rw [List.getElem?_eq_none (by omega)]
    rfl
  · rfl

theorem patch_inside {j : Nat} {b : UInt8} (h : data[j]? = some b) :
    patch bytes offset data (offset + j) = b := by
  simp [patch, h]

@[simp] theorem patch_singleton (b : UInt8) : patch bytes offset [b] offset = b := by
  simp [patch]

theorem slice_congr (h : ∀ i, offset ≤ i → i < offset + len → bytes i = bytes' i) :
    slice bytes offset len = slice bytes' offset len := by
  refine List.map_congr_left fun i mem => ?_
  rw [List.mem_range] at mem
  exact h (offset + i) (by omega) (by omega)

theorem getElem?_slice {i : Nat} (inside : i < len) :
    (slice bytes offset len)[i]? = some (bytes (offset + i)) := by
  simp [slice, inside]

theorem eq_of_slice_eq (h : slice bytes offset len = slice bytes' offset len) {i : Nat}
    (after : offset ≤ i) (inside : i < offset + len) : bytes i = bytes' i := by
  have same : (slice bytes offset len)[i - offset]? = (slice bytes' offset len)[i - offset]? := by rw [h]
  rw [getElem?_slice (by omega), getElem?_slice (by omega), Nat.add_sub_cancel' after] at same
  exact Option.some.inj same

theorem slice_patch_same : slice (patch bytes offset data) offset data.length = data := by
  apply List.ext_getElem?
  intro i
  by_cases inside : i < data.length
  · rw [getElem?_slice inside, List.getElem?_eq_getElem inside]
    exact congrArg some (patch_inside (List.getElem?_eq_getElem inside))
  · rw [List.getElem?_eq_none (by simpa using inside), List.getElem?_eq_none (by omega)]

theorem slice_patch_apart {at_ : Nat} (h : at_ + data.length ≤ offset ∨ offset + len ≤ at_) :
    slice (patch bytes at_ data) offset len = slice bytes offset len :=
  slice_congr fun i _ _ => patch_outside (by omega)

theorem slice_add {m n : Nat} :
    slice bytes offset (m + n) = slice bytes offset m ++ slice bytes (offset + m) n := by
  simp [slice, List.range_add, Nat.add_assoc]

theorem slice_slice {i n : Nat} (inside : i + n ≤ len) :
    ((slice bytes offset len).drop i).take n = slice bytes (offset + i) n := by
  obtain ⟨rest, rfl⟩ := Nat.exists_eq_add_of_le inside
  rw [Nat.add_assoc, slice_add, slice_add, List.drop_left' (by simp), List.take_left' (by simp)]

theorem truncate_inside {i : Nat} (h : i < len) : truncate bytes len i = bytes i := by
  simp [truncate, h]

theorem truncate_outside {i : Nat} (h : len ≤ i) : truncate bytes len i = 0 := by
  simp [truncate, Nat.not_lt.mpr h]

end Slices

section LittleEndian

-- The `width` low bytes of `n`, lowest first.
def littleEndian : Nat → Nat → List UInt8
  | 0, _ => []
  | width + 1, n => UInt8.ofNat n :: littleEndian width (n / 256)

def ofLittleEndian : List UInt8 → Nat
  | [] => 0
  | b :: rest => b.toNat + 256 * ofLittleEndian rest

@[simp] theorem length_littleEndian (width n : Nat) : (littleEndian width n).length = width := by
  induction width generalizing n with
  | zero => rfl
  | succ width ih => simp [littleEndian, ih]

theorem ofLittleEndian_littleEndian_mod (width n : Nat) :
    ofLittleEndian (littleEndian width n) = n % 256 ^ width := by
  induction width generalizing n with
  | zero => simp [littleEndian, ofLittleEndian, Nat.mod_one]
  | succ width ih =>
    rw [littleEndian, ofLittleEndian, ih, Nat.pow_succ', Nat.mod_mul, UInt8.toNat_ofNat']

theorem ofLittleEndian_littleEndian {width n : Nat} (small : n < 256 ^ width) :
    ofLittleEndian (littleEndian width n) = n := by
  rw [ofLittleEndian_littleEndian_mod, Nat.mod_eq_of_lt small]

theorem littleEndian_ofLittleEndian (bytes : List UInt8) :
    littleEndian bytes.length (ofLittleEndian bytes) = bytes := by
  induction bytes with
  | nil => rfl
  | cons b rest ih =>
    have byte := UInt8.toNat_lt b
    have low : UInt8.ofNat (b.toNat + 256 * ofLittleEndian rest) = b := by
      rw [← UInt8.toNat_inj, UInt8.toNat_ofNat']
      omega
    have high : (b.toNat + 256 * ofLittleEndian rest) / 256 = ofLittleEndian rest := by omega
    rw [List.length_cons, ofLittleEndian, littleEndian, low, high, ih]

theorem ofLittleEndian_lt (bytes : List UInt8) : ofLittleEndian bytes < 256 ^ bytes.length := by
  induction bytes with
  | nil => simp [ofLittleEndian]
  | cons b rest ih =>
    have byte := b.toNat_lt
    rw [ofLittleEndian, List.length_cons, Nat.pow_succ]
    omega

end LittleEndian

section Records

variable {A : Type} {width : Nat} {encode : A → List UInt8} {decode : List UInt8 → A}

-- `count` records of `width` bytes, one after the other.
def readMany (width : Nat) (decode : List UInt8 → A) : Nat → List UInt8 → List A
  | 0, _ => []
  | count + 1, bytes => decode (bytes.take width) :: readMany width decode count (bytes.drop width)

theorem length_readMany {count : Nat} {bytes : List UInt8} :
    (readMany width decode count bytes).length = count := by
  induction count generalizing bytes with
  | zero => rfl
  | succ count ih => rw [readMany, List.length_cons, ih]

theorem length_records {items : List A} (length : ∀ a ∈ items, (encode a).length = width) :
    (items.flatMap encode).length = items.length * width := by
  induction items with
  | nil => simp
  | cons a rest ih =>
    rw [List.flatMap_cons, List.length_append, length a List.mem_cons_self,
      ih fun b mem => length b (List.mem_cons_of_mem _ mem), List.length_cons, Nat.succ_mul]
    omega

theorem readMany_records {items : List A} {rest : List UInt8}
    (length : ∀ a ∈ items, (encode a).length = width)
    (back : ∀ a ∈ items, decode (encode a) = a) :
    readMany width decode items.length (items.flatMap encode ++ rest) = items := by
  induction items with
  | nil => rfl
  | cons a items ih =>
    have size := length a List.mem_cons_self
    rw [List.flatMap_cons, List.append_assoc, List.length_cons, readMany, List.take_left' size,
      List.drop_left' size, back a List.mem_cons_self,
      ih (fun b mem => length b (List.mem_cons_of_mem _ mem))
        fun b mem => back b (List.mem_cons_of_mem _ mem)]

end Records

section Bits

def bit (b : UInt8) (i : Nat) : Bool := (b >>> UInt8.ofNat i) &&& 1 != 0

def setBit (b : UInt8) (i : Nat) (value : Bool) : UInt8 :=
  if value then b ||| (1 <<< UInt8.ofNat i) else b &&& ~~~(1 <<< UInt8.ofNat i)

theorem bit_eq_testBit (b : UInt8) {i : Nat} (h : i < 8) : bit b i = b.toNat.testBit i := by
  have index : (UInt8.ofNat i).toNat = i := by
    rw [UInt8.toNat_ofNat']
    omega
  have low : ((b >>> UInt8.ofNat i) &&& 1).toNat = (b.toNat >>> i) &&& 1 := by
    rw [UInt8.toNat_and, UInt8.toNat_shiftRight, index, Nat.mod_eq_of_lt h]
    rfl
  rw [bit, Nat.testBit, bne, bne, Nat.and_comm 1, ← low]
  congr 1
  rw [Bool.eq_iff_iff]
  simp [← UInt8.toNat_inj]

theorem bit_setBit (b : UInt8) {i j : Nat} (value : Bool) (hi : i < 8) (hj : j < 8) :
    bit (setBit b i value) j = if i = j then value else bit b j := by
  have index : (UInt8.ofNat i).toNat = i := by
    rw [UInt8.toNat_ofNat']
    omega
  have power : (1 <<< i) % 2 ^ 8 = 2 ^ i := by
    rw [Nat.one_shiftLeft, Nat.mod_eq_of_lt (Nat.pow_lt_pow_right (by decide) hi)]
  have cleared : ∀ i j : Fin 8, (UInt8.size - 1 - 2 ^ i.val).testBit j.val = !decide (i = j) := by
    decide
  rw [bit_eq_testBit _ hj, bit_eq_testBit _ hj]
  cases value with
  | true =>
    simp only [setBit, if_true, UInt8.toNat_or, UInt8.toNat_shiftLeft, index, Nat.mod_eq_of_lt hi,
      UInt8.toNat_one, power, Nat.testBit_or, Nat.testBit_two_pow]
    by_cases same : i = j <;> simp [same]
  | false =>
    simp only [setBit, Bool.false_eq_true, if_false, UInt8.toNat_and, UInt8.toNat_not,
      UInt8.toNat_shiftLeft, index, Nat.mod_eq_of_lt hi, UInt8.toNat_one, power, Nat.testBit_and]
    rw [cleared ⟨i, hi⟩ ⟨j, hj⟩]
    by_cases same : i = j <;> simp [same]

end Bits

end Gems.Lib
