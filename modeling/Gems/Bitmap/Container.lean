import Gems.Lib.Search
import Mathlib.Data.Nat.Bitwise
import Mathlib.Order.Fin.Basic

set_option autoImplicit false

namespace Gems.Bitmap

open Lib

-- u16.
abbrev Low := Fin (2 ^ 16)

def bitmapWords : Nat := 1024

def arrayToBitmapThreshold : Nat := 4096

-- A bit for each of the 65536 values, in words of 64.
abbrev Words := Fin bitmapWords → BitVec 64

inductive Container where
  | array (v : List Low)
  | bitmap (bits : Words)

def word (low : Low) : Fin bitmapWords := ⟨low / 64, by have := low.isLt; unfold bitmapWords; omega⟩

def mask (low : Low) : BitVec 64 := 1#64 <<< (low.val % 64)

def countOnes (w : BitVec 64) : Nat := (List.range 64).countP w.getLsbD

namespace Words

def zero : Words := fun _ => 0

def test (bits : Words) (low : Low) : Bool := (bits (word low) >>> (low.val % 64)) &&& 1 ≠ 0

def set (bits : Words) (low : Low) : Words :=
  Function.update bits (word low) (bits (word low) ||| mask low)

def clear (bits : Words) (low : Low) : Words :=
  Function.update bits (word low) (bits (word low) &&& ~~~mask low)

def wasSet (bits : Words) (low : Low) : Bool := bits (word low) &&& mask low ≠ 0

def count (bits : Words) : Nat := ((List.finRange bitmapWords).map fun w => countOnes (bits w)).sum

def iterWord (w : Fin bitmapWords) (bits : BitVec 64) : List Low :=
  (List.range 64).filterMap fun b =>
    if bits &&& (1#64 <<< b) ≠ 0 then some (Fin.ofNat (2 ^ 16) (w * 64 + b)) else none

def iter (bits : Words) : List Low := (List.finRange bitmapWords).flatMap fun w => iterWord w (bits w)

end Words

namespace Container

def newArray : Container := array []

def len : Container → Nat
  | array v => v.length
  | bitmap bits => bits.count

def isEmpty (c : Container) : Bool := c.len == 0

def search (v : List Low) (low : Low) : Except Nat Nat := binarySearch (v.map fun low => (low, ())) low

def contains : Container → Low → Bool
  | array v, low => (search v low).isOk
  | bitmap bits, low => bits.test low

def promoteToBitmap (v : List Low) : Words := v.foldl Words.set Words.zero

-- The container afterwards, and whether `low` was new.
def insert : Container → Low → Container × Bool
  | array v, low =>
    match search v low with
    | .ok _ => (array v, false)
    | .error idx =>
      let v := v.insertIdx idx low
      (if v.length > arrayToBitmapThreshold then bitmap (promoteToBitmap v) else array v, true)
  | bitmap bits, low => (bitmap (bits.set low), !bits.wasSet low)

-- A bitmap stays a bitmap.
def remove : Container → Low → Container × Bool
  | array v, low =>
    match search v low with
    | .ok idx => (array (v.eraseIdx idx), true)
    | .error _ => (array v, false)
  | bitmap bits, low => (bitmap (bits.clear low), bits.wasSet low)

def iter : Container → List Low
  | array v => v
  | bitmap bits => bits.iter

def orInto : Container → Words → Words
  | array v, bits => v.foldl Words.set bits
  | bitmap b, bits => fun i => bits i ||| b i

def shrinkIfSparse : Container → Container
  | array v => array v
  | bitmap bits => if bits.count ≤ arrayToBitmapThreshold then array bits.iter else bitmap bits

def union (c other : Container) : Container := shrinkIfSparse (bitmap (other.orInto (c.orInto Words.zero)))

-- The loops that build a container from the values that pass a test.
def collect (p : Low → Bool) (values : List Low) : Container :=
  values.foldl (fun out v => if p v then (out.insert v).1 else out) newArray

def intersect (c other : Container) : Container :=
  let (small, large) := if c.len ≤ other.len then (c, other) else (other, c)
  collect large.contains small.iter

def Has : Container → Low → Prop
  | array v, low => low ∈ v
  | bitmap bits, low => (bits (word low)).getLsbD (low.val % 64) = true

inductive Valid : Container → Prop
  | array {v : List Low} (sorted : v.Pairwise (· < ·)) (short : v.length ≤ arrayToBitmapThreshold) :
    Valid (array v)
  | bitmap (bits : Words) : Valid (bitmap bits)

end Container

section Bits

variable {bits : Words} {low x : Low}

theorem word_bit_ext (sameWord : word x = word low) (sameBit : x.val % 64 = low.val % 64) : x = low := by
  have quotient : x.val / 64 = low.val / 64 := congrArg Fin.val sameWord
  have := Nat.div_add_mod x.val 64
  have := Nat.div_add_mod low.val 64
  exact Fin.ext (by omega)

theorem mask_getLsbD {b j : Nat} (small : b < 64) : (1#64 <<< b).getLsbD j = decide (b = j) := by
  rw [← BitVec.twoPow_eq, BitVec.getLsbD_twoPow]
  simp [small]

theorem and_mask {w : BitVec 64} {b : Nat} (small : b < 64) : w &&& (1#64 <<< b) ≠ 0 ↔ w.getLsbD b = true := by
  rw [← BitVec.twoPow_eq, BitVec.and_twoPow]
  cases w.getLsbD b with
  | false => simp
  | true =>
    have nonzero : BitVec.twoPow 64 b ≠ 0 := by
      intro zero
      have bit := BitVec.getLsbD_twoPow (w := 64) b b
      rw [zero] at bit
      simp [small] at bit
    simpa using nonzero

theorem wasSet_iff : bits.wasSet low = true ↔ (bits (word low)).getLsbD (low.val % 64) = true := by
  rw [Words.wasSet, decide_eq_true_iff]
  exact and_mask (Nat.mod_lt _ (by decide))

theorem test_iff : bits.test low = true ↔ (bits (word low)).getLsbD (low.val % 64) = true := by
  rw [Words.test, decide_eq_true_iff]
  have := and_mask (w := bits (word low) >>> (low.val % 64)) (b := 0) (by decide)
  rw [show (1#64 <<< 0) = (1 : BitVec 64) from rfl] at this
  rw [this, BitVec.getLsbD_ushiftRight, Nat.add_zero]

theorem getLsbD_set : (bits.set low (word x)).getLsbD (x.val % 64) = true ↔
    x = low ∨ (bits (word x)).getLsbD (x.val % 64) = true := by
  by_cases same : word x = word low
  · rw [Words.set, same, Function.update_self, BitVec.getLsbD_or, mask,
      mask_getLsbD (Nat.mod_lt _ (by decide)), Bool.or_eq_true, decide_eq_true_iff]
    constructor
    · rintro (old | bit)
      · exact .inr old
      · exact .inl (word_bit_ext same bit.symm)
    · rintro (rfl | old)
      · exact .inr rfl
      · exact .inl old
  · rw [Words.set, Function.update_of_ne same]
    have other : x ≠ low := fun h => same (h ▸ rfl)
    simp [other]

theorem getLsbD_clear : (bits.clear low (word x)).getLsbD (x.val % 64) = true ↔
    x ≠ low ∧ (bits (word x)).getLsbD (x.val % 64) = true := by
  by_cases same : word x = word low
  · have small : x.val % 64 < 64 := Nat.mod_lt _ (by decide)
    rw [Words.clear, same, Function.update_self, BitVec.getLsbD_and, BitVec.getLsbD_not, mask,
      mask_getLsbD (Nat.mod_lt _ (by decide)), decide_eq_true small]
    have bit : low.val % 64 = x.val % 64 ↔ x = low :=
      ⟨fun here => word_bit_ext same here.symm, fun here => by rw [here]⟩
    simp [bit, and_comm]
  · rw [Words.clear, Function.update_of_ne same]
    have other : x ≠ low := fun h => same (h ▸ rfl)
    simp [other]

theorem getLsbD_foldl_set (v : List Low) : ((v.foldl Words.set bits) (word x)).getLsbD (x.val % 64) = true ↔
    x ∈ v ∨ (bits (word x)).getLsbD (x.val % 64) = true := by
  induction v generalizing bits with
  | nil => simp
  | cons low rest ih =>
    rw [List.foldl_cons, ih, getLsbD_set, List.mem_cons]
    tauto

theorem mem_iterWord {w : Fin bitmapWords} {word : BitVec 64} : x ∈ Words.iterWord w word ↔
    Gems.Bitmap.word x = w ∧ word.getLsbD (x.val % 64) = true := by
  have size : w.val < 1024 := w.isLt
  rw [Words.iterWord, List.mem_filterMap]
  constructor
  · rintro ⟨b, mem, made⟩
    have small : b < 64 := List.mem_range.mp mem
    split at made
    next bit =>
      obtain rfl := Option.some.inj made
      have value : (Fin.ofNat (2 ^ 16) (w.val * 64 + b)).val = w.val * 64 + b :=
        Nat.mod_eq_of_lt (by omega)
      refine ⟨Fin.ext ?_, ?_⟩
      · change (Fin.ofNat (2 ^ 16) (w.val * 64 + b)).val / 64 = w.val
        rw [value]
        omega
      · rw [value, show (w.val * 64 + b) % 64 = b by omega]
        exact (and_mask small).mp bit
    next => cases made
  · rintro ⟨rfl, bit⟩
    have small : x.val % 64 < 64 := Nat.mod_lt _ (by decide)
    refine ⟨x.val % 64, List.mem_range.mpr small, ?_⟩
    rw [if_pos ((and_mask small).mpr bit)]
    have value : (Gems.Bitmap.word x).val * 64 + x.val % 64 = x.val := by
      rw [Gems.Bitmap.word]
      dsimp only
      omega
    rw [value]
    exact congrArg some (Fin.ext (Nat.mod_eq_of_lt x.isLt))

theorem mem_iter : x ∈ bits.iter ↔ (bits (word x)).getLsbD (x.val % 64) = true := by
  rw [Words.iter, List.mem_flatMap]
  constructor
  · rintro ⟨w, -, mem⟩
    obtain ⟨rfl, bit⟩ := mem_iterWord.mp mem
    exact bit
  · intro bit
    exact ⟨word x, List.mem_finRange _, mem_iterWord.mpr ⟨rfl, bit⟩⟩

theorem iterWord_sorted (w : Fin bitmapWords) (bits : BitVec 64) :
    (Words.iterWord w bits).Pairwise (· < ·) := by
  have size : w.val < 1024 := w.isLt
  refine List.pairwise_filterMap.mpr ((List.pairwise_lt_range (n := 64)).imp_of_mem ?_)
  intro a b memA memB below x foundX y foundY
  have smallA : a < 64 := List.mem_range.mp memA
  have smallB : b < 64 := List.mem_range.mp memB
  split at foundX
  next =>
    split at foundY
    next =>
      obtain rfl := Option.some.inj foundX
      obtain rfl := Option.some.inj foundY
      change (w.val * 64 + a) % 2 ^ 16 < (w.val * 64 + b) % 2 ^ 16
      rw [Nat.mod_eq_of_lt (by omega), Nat.mod_eq_of_lt (by omega)]
      omega
    next => cases foundY
  next => cases foundX

theorem iter_sorted (bits : Words) : bits.iter.Pairwise (· < ·) := by
  refine List.pairwise_flatMap.mpr ⟨fun w _ => iterWord_sorted w _, ?_⟩
  refine (List.pairwise_lt_finRange bitmapWords).imp ?_
  intro v w below x memX y memY
  obtain ⟨rfl, -⟩ := mem_iterWord.mp memX
  obtain ⟨rfl, -⟩ := mem_iterWord.mp memY
  have quotient : x.val / 64 < y.val / 64 := below
  change x.val < y.val
  omega

theorem length_iterWord (w : Fin bitmapWords) (bits : BitVec 64) :
    (Words.iterWord w bits).length = countOnes bits := by
  rw [Words.iterWord, List.length_filterMap_eq_countP, countOnes]
  refine List.countP_congr fun b mem => ?_
  rw [← and_mask (List.mem_range.mp mem)]
  split
  next bit => exact iff_of_true rfl bit
  next no => exact iff_of_false (by simp) no

theorem length_iter (bits : Words) : bits.iter.length = bits.count := by
  rw [Words.iter, List.length_flatMap, Words.count]
  simp only [length_iterWord]

end Bits

namespace Container

variable {c other : Container} {v : List Low} {low x : Low}

section Search

theorem keys_sorted (sorted : v.Pairwise (· < ·)) : Sorted (v.map fun low => (low, ())) :=
  List.pairwise_map.mpr sorted

theorem search_ok (sorted : v.Pairwise (· < ·)) {idx : Nat} (found : search v low = .ok idx) :
    ∃ below above, v = below ++ low :: above ∧ below.length = idx := by
  obtain ⟨below, value, above, split, size, -, -⟩ := Lib.search_ok (keys_sorted sorted) found
  obtain ⟨below', rest, rfl, rfl, same⟩ := List.map_eq_append_iff.mp split
  obtain ⟨low', above', rfl, first, rfl⟩ := List.map_eq_cons_iff.mp same
  obtain rfl : low' = low := congrArg Prod.fst first
  exact ⟨below', above', rfl, by rw [← size, List.length_map]⟩

theorem search_error (sorted : v.Pairwise (· < ·)) {idx : Nat} (missing : search v low = .error idx) :
    ∃ below above, v = below ++ above ∧ below.length = idx ∧ (∀ x ∈ below, x < low) ∧
      ∀ x ∈ above, low < x := by
  obtain ⟨below, above, split, size, lower, upper⟩ := Lib.search_error (keys_sorted sorted) missing
  obtain ⟨below', above', rfl, rfl, rfl⟩ := List.map_eq_append_iff.mp split
  refine ⟨below', above', rfl, by rw [← size, List.length_map], fun x mem => ?_, fun x mem => ?_⟩
  · exact lower (x, ()) (List.mem_map_of_mem mem)
  · exact upper (x, ()) (List.mem_map_of_mem mem)

theorem search_iff (sorted : v.Pairwise (· < ·)) : (search v low).isOk = true ↔ low ∈ v := by
  cases found : search v low with
  | ok idx =>
    obtain ⟨below, above, rfl, -⟩ := search_ok sorted found
    simp [Except.isOk, Except.toBool]
  | error idx =>
    obtain ⟨below, above, rfl, -, lower, upper⟩ := search_error sorted found
    have outside : low ∉ below ++ above := by
      intro mem
      rcases List.mem_append.mp mem with left | right
      · exact (lower low left).false
      · exact (upper low right).false
    simp [Except.isOk, Except.toBool, outside]

end Search

theorem contains_iff (valid : c.Valid) : c.contains low = true ↔ c.Has low := by
  cases valid with
  | array sorted short => exact search_iff sorted
  | bitmap bits => exact test_iff

theorem mem_iter (c : Container) : x ∈ c.iter ↔ c.Has x := by
  cases c with
  | array v => exact Iff.rfl
  | bitmap bits => exact Gems.Bitmap.mem_iter

theorem iter_sorted (valid : c.Valid) : c.iter.Pairwise (· < ·) := by
  cases valid with
  | array sorted short => exact sorted
  | bitmap bits => exact Gems.Bitmap.iter_sorted bits

theorem length_iter (c : Container) : c.iter.length = c.len := by
  cases c with
  | array v => rfl
  | bitmap bits => exact Gems.Bitmap.length_iter bits

theorem isEmpty_iff (c : Container) : c.isEmpty = true ↔ ∀ low, ¬ c.Has low := by
  rw [isEmpty, beq_iff_eq, ← length_iter, List.length_eq_zero_iff, List.eq_nil_iff_forall_not_mem]
  exact forall_congr' fun low => not_congr (mem_iter c)

theorem newArray_valid : newArray.Valid := .array .nil (Nat.zero_le _)

theorem newArray_has : ¬ newArray.Has low := List.not_mem_nil

theorem insert_spec (valid : c.Valid) (low : Low) :
    (c.insert low).1.Valid ∧ (∀ x, (c.insert low).1.Has x ↔ x = low ∨ c.Has x) ∧
      ((c.insert low).2 = true ↔ ¬ c.Has low) := by
  cases valid with
  | bitmap bits =>
    refine ⟨.bitmap _, fun x => getLsbD_set, ?_⟩
    rw [insert, Bool.not_eq_true', Bool.eq_false_iff]
    exact not_congr wasSet_iff
  | @array v sorted short =>
    have here : (search v low).isOk = true ↔ low ∈ v := search_iff sorted
    rw [insert]
    cases found : search v low with
    | ok idx =>
      have mem : low ∈ v := here.mp (by rw [found]; rfl)
      refine ⟨.array sorted short, fun x => ?_, by simpa [Has] using mem⟩
      exact ⟨.inr, fun h => h.elim (fun same => same ▸ mem) id⟩
    | error idx =>
      obtain ⟨below, above, rfl, rfl, lower, upper⟩ := search_error sorted found
      have absent : low ∉ below ++ above := fun mem => by
        have := here.mpr mem
        rw [found] at this
        cases this
      dsimp only
      rw [insertIdx_append]
      have sorted' : (below ++ low :: above).Pairwise (· < ·) := by
        obtain ⟨left, right, apart⟩ := List.pairwise_append.mp sorted
        refine List.pairwise_append.mpr ⟨left, List.pairwise_cons.mpr ⟨upper, right⟩, fun a memA b memB => ?_⟩
        rcases List.mem_cons.mp memB with rfl | inside
        · exact lower a memA
        · exact apart a memA b inside
      have mem (x : Low) : x ∈ below ++ low :: above ↔ x = low ∨ x ∈ below ++ above := by
        simp only [List.mem_append, List.mem_cons]
        tauto
      refine ⟨?_, fun x => ?_, by simpa [Has] using absent⟩
      · split
        · exact .bitmap _
        next short' => exact .array sorted' (not_lt.mp short')
      · split
        · have zero : ¬ (Words.zero (word x)).getLsbD (x.val % 64) = true := by simp [Words.zero]
          exact (getLsbD_foldl_set _).trans ((or_iff_left zero).trans (mem x))
        · exact mem x

theorem remove_spec (valid : c.Valid) (low : Low) :
    (c.remove low).1.Valid ∧ (∀ x, (c.remove low).1.Has x ↔ x ≠ low ∧ c.Has x) ∧
      ((c.remove low).2 = true ↔ c.Has low) := by
  cases valid with
  | bitmap bits => exact ⟨.bitmap _, fun x => getLsbD_clear, wasSet_iff⟩
  | @array v sorted short =>
    have here : (search v low).isOk = true ↔ low ∈ v := search_iff sorted
    rw [remove]
    cases found : search v low with
    | ok idx =>
      have mem : low ∈ v := here.mp (by rw [found]; rfl)
      obtain ⟨below, above, rfl, rfl⟩ := search_ok sorted found
      have erased : (below ++ low :: above).eraseIdx below.length = below ++ above := by
        rw [List.eraseIdx_append_of_length_le le_rfl, Nat.sub_self, List.eraseIdx_cons_zero]
      dsimp only
      rw [erased]
      have part : (below ++ above).Sublist (below ++ low :: above) :=
        (List.Sublist.refl below).append (List.sublist_cons_self _ _)
      refine ⟨.array (sorted.sublist part) (part.length_le.trans short), fun x => ?_, by simp [Has]⟩
      obtain ⟨-, right, apart⟩ := List.pairwise_append.mp sorted
      have left : x ∈ below → x ≠ low := fun mem => (apart x mem low List.mem_cons_self).ne
      have right : x ∈ above → x ≠ low := fun mem => ((List.pairwise_cons.mp right).1 x mem).ne'
      simp only [Has, List.mem_append, List.mem_cons]
      tauto
    | error idx =>
      have absent : low ∉ v := fun mem => by
        have := here.mpr mem
        rw [found] at this
        cases this
      refine ⟨.array sorted short, fun x => ?_, by simpa [Has] using absent⟩
      refine ⟨fun mem => ⟨?_, mem⟩, And.right⟩
      rintro rfl
      exact absent mem

theorem orInto_has (c : Container) {bits : Words} :
    (c.orInto bits (word x)).getLsbD (x.val % 64) = true ↔
      c.Has x ∨ (bits (word x)).getLsbD (x.val % 64) = true := by
  cases c with
  | array v => exact getLsbD_foldl_set v
  | bitmap b =>
    rw [orInto, BitVec.getLsbD_or, Bool.or_eq_true, or_comm]
    exact Iff.rfl

theorem shrinkIfSparse_spec (bits : Words) :
    (shrinkIfSparse (bitmap bits)).Valid ∧ ∀ x, (shrinkIfSparse (bitmap bits)).Has x ↔ (bitmap bits).Has x := by
  rw [shrinkIfSparse]
  split
  next sparse =>
    refine ⟨.array (Gems.Bitmap.iter_sorted bits) ?_, fun x => Gems.Bitmap.mem_iter⟩
    rwa [Gems.Bitmap.length_iter]
  next => exact ⟨.bitmap bits, fun x => Iff.rfl⟩

theorem union_spec (c other : Container) :
    (c.union other).Valid ∧ ∀ x, (c.union other).Has x ↔ c.Has x ∨ other.Has x := by
  obtain ⟨valid, has⟩ := shrinkIfSparse_spec (other.orInto (c.orInto Words.zero))
  rw [union]
  refine ⟨valid, fun x => ?_⟩
  have zero : ¬ (Words.zero (word x)).getLsbD (x.val % 64) = true := by simp [Words.zero]
  rw [has, Has, orInto_has, orInto_has, or_iff_left zero, or_comm]

theorem collect_spec (p : Low → Bool) (values : List Low) :
    (collect p values).Valid ∧ ∀ x, (collect p values).Has x ↔ x ∈ values ∧ p x = true := by
  have loop (values : List Low) (out : Container) (valid : out.Valid) :
      (values.foldl (fun out v => if p v then (out.insert v).1 else out) out).Valid ∧
      ∀ x, (values.foldl (fun out v => if p v then (out.insert v).1 else out) out).Has x ↔
        x ∈ values ∧ p x = true ∨ out.Has x := by
    induction values generalizing out with
    | nil => exact ⟨valid, fun x => by simp⟩
    | cons v rest ih =>
      rw [List.foldl_cons]
      by_cases kept : p v = true
      · rw [if_pos kept]
        obtain ⟨valid', has', -⟩ := insert_spec valid v
        obtain ⟨whole, each⟩ := ih _ valid'
        refine ⟨whole, fun x => ?_⟩
        rw [each, has', List.mem_cons]
        by_cases same : x = v
        · subst same
          simp [kept]
        · simp [same]
      · rw [if_neg kept]
        obtain ⟨whole, each⟩ := ih _ valid
        refine ⟨whole, fun x => ?_⟩
        rw [each, List.mem_cons]
        by_cases same : x = v
        · subst same
          simp [kept]
        · simp [same]
  obtain ⟨valid, has⟩ := loop values newArray newArray_valid
  exact ⟨valid, fun x => (has x).trans (or_iff_left newArray_has)⟩

theorem intersect_spec (valid : c.Valid) (valid' : other.Valid) :
    (c.intersect other).Valid ∧ ∀ x, (c.intersect other).Has x ↔ c.Has x ∧ other.Has x := by
  by_cases smaller : c.len ≤ other.len
  · have eq : c.intersect other = collect other.contains c.iter := by rw [intersect, if_pos smaller]
    obtain ⟨whole, each⟩ := collect_spec other.contains c.iter
    rw [eq]
    refine ⟨whole, fun x => ?_⟩
    rw [each, mem_iter, contains_iff valid']
  · have eq : c.intersect other = collect c.contains other.iter := by rw [intersect, if_neg smaller]
    obtain ⟨whole, each⟩ := collect_spec c.contains other.iter
    rw [eq]
    refine ⟨whole, fun x => ?_⟩
    rw [each, mem_iter, contains_iff valid, and_comm]

end Container

end Gems.Bitmap
