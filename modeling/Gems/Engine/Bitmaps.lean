import Gems.Bitmap.Roaring
import Gems.Engine.Planner
import Gems.Lib.Lists

set_option autoImplicit false

namespace Gems.Engine

open Lib Bitmap

-- A secondary index as the program holds it: a bitmap for each value.
structure BitmapIndex where
  byValue : List UInt8 → Option RoaringBitmap

namespace BitmapIndex

def new : BitmapIndex := { byValue := fun _ => none }

def insert (index : BitmapIndex) (value : List UInt8) (ordinal : UInt32) : BitmapIndex :=
  { byValue := Function.update index.byValue value
      (some (((index.byValue value).getD .new).insert ordinal).1) }

def remove (index : BitmapIndex) (value : List UInt8) (ordinal : UInt32) : BitmapIndex :=
  match index.byValue value with
  | none => index
  | some bitmap =>
    let bitmap := (bitmap.remove ordinal).1
    { byValue := Function.update index.byValue value (if bitmap.isEmpty then none else some bitmap) }

def get (index : BitmapIndex) (value : List UInt8) : RoaringBitmap := (index.byValue value).getD .new

end BitmapIndex

structure Holding (bitmap : RoaringBitmap) (ordinals : Finset Ordinal) : Prop where
  valid : bitmap.Valid
  has : ∀ value, bitmap.Has value ↔ ⟨value⟩ ∈ ordinals

variable {bitmap other : RoaringBitmap} {ordinals ordinals' : Finset Ordinal} {bitmaps : BitmapIndex}
  {index : SecondaryIndex} {value : List UInt8} {ord : Ordinal}

theorem Holding.new : Holding .new ∅ where
  valid := RoaringBitmap.new_valid
  has _ := by simp [RoaringBitmap.new_has]

theorem ordinal_eq {v : UInt32} : (⟨v⟩ : Ordinal) = ord ↔ v = ord.value := by
  cases ord
  exact Ordinal.mk.injEq .. ▸ Iff.rfl

theorem Holding.insert (holding : Holding bitmap ordinals) (ord : Ordinal) :
    Holding (bitmap.insert ord.value).1 (Insert.insert ord ordinals) := by
  obtain ⟨valid, has, -⟩ := RoaringBitmap.insert_spec holding.valid ord.value
  refine ⟨valid, fun value => ?_⟩
  rw [has, holding.has, Finset.mem_insert, ordinal_eq]

theorem Holding.remove (holding : Holding bitmap ordinals) (ord : Ordinal) :
    Holding (bitmap.remove ord.value).1 (ordinals.erase ord) := by
  obtain ⟨valid, has, -⟩ := RoaringBitmap.remove_spec holding.valid ord.value
  refine ⟨valid, fun value => ?_⟩
  rw [has, holding.has, Finset.mem_erase, ne_eq, ne_eq, ordinal_eq]

theorem Holding.union (holding : Holding bitmap ordinals) (holding' : Holding other ordinals') :
    Holding (bitmap.union other) (ordinals ∪ ordinals') := by
  obtain ⟨valid, has⟩ := RoaringBitmap.union_spec holding.valid holding'.valid
  refine ⟨valid, fun value => ?_⟩
  rw [has, holding.has, holding'.has, Finset.mem_union]

theorem Holding.empty (holding : Holding bitmap ordinals) (none : bitmap.isEmpty = true) : ordinals = ∅ := by
  refine Finset.eq_empty_of_forall_notMem fun ord mem => ?_
  exact (RoaringBitmap.isEmpty_iff holding.valid).mp none ord.value ((holding.has _).mpr mem)

theorem Holding.toVec (holding : Holding bitmap ordinals) :
    bitmap.toVec.map Ordinal.mk = ordinals.sort (· ≤ ·) := by
  refine eq_of_ascending ?_ ?_ fun ord => ?_
  · refine List.pairwise_map.mpr ((RoaringBitmap.toVec_sorted holding.valid).imp fun less => ?_)
    exact Ordinal.lt_iff.mpr (UInt32.lt_iff_toNat_lt.mp less)
  · exact (Finset.sortedLT_sort ordinals).pairwise
  · rw [List.mem_map, Finset.mem_sort]
    constructor
    · rintro ⟨v, mem, rfl⟩
      exact (holding.has v).mp ((RoaringBitmap.mem_toVec bitmap).mp mem)
    · intro mem
      exact ⟨ord.value, (RoaringBitmap.mem_toVec bitmap).mpr ((holding.has _).mpr mem), rfl⟩

/-- The bitmaps of the program hold what the index of sets says. -/
def Represents (bitmaps : BitmapIndex) (index : SecondaryIndex) : Prop :=
  ∀ value, Holding (bitmaps.get value) (index.get value)

theorem Represents.new : Represents .new .new := fun _ => .new

theorem Represents.insert (represents : Represents bitmaps index) (value : List UInt8) (ord : Ordinal) :
    Represents (bitmaps.insert value ord.value) (index.insert value ord) := by
  intro value'
  have here := (represents value).insert ord
  by_cases same : value' = value
  · subst same
    simp only [BitmapIndex.get, BitmapIndex.insert, SecondaryIndex.get, SecondaryIndex.insert,
      Function.update_self]
    exact here
  · simp only [BitmapIndex.get, BitmapIndex.insert, SecondaryIndex.get, SecondaryIndex.insert,
      Function.update_of_ne same]
    exact represents value'

-- A value without a bitmap, and one whose last ordinal goes, both read as empty.
theorem Represents.remove (represents : Represents bitmaps index) (value : List UInt8) (ord : Ordinal) :
    Represents (bitmaps.remove value ord.value) (index.remove value ord) := by
  intro value'
  have here := (represents value).remove ord
  by_cases same : value' = value
  · subst same
    simp only [SecondaryIndex.get, SecondaryIndex.remove, Function.update_self, BitmapIndex.get,
      BitmapIndex.remove]
    cases found : bitmaps.byValue value' with
    | none =>
      have empty := (represents value').empty (by rw [BitmapIndex.get, found]; rfl)
      have erased : (index.byValue value').erase ord = ∅ := by
        rw [show index.byValue value' = ∅ from empty, Finset.erase_empty]
      dsimp only
      rw [erased, found]
      exact .new
    | some bitmap =>
      have now : Holding (bitmap.remove ord.value).1 ((index.byValue value').erase ord) := by
        rw [BitmapIndex.get, found] at here
        exact here
      dsimp only
      rw [Function.update_self]
      split
      next none => exact now.empty none ▸ .new
      next some_ => exact now
  · have kept : (bitmaps.remove value ord.value).byValue value' = bitmaps.byValue value' := by
      rw [BitmapIndex.remove]
      split
      · rfl
      · exact Function.update_of_ne same _ _
    simp only [BitmapIndex.get, kept, SecondaryIndex.get, SecondaryIndex.remove, Function.update_of_ne same]
    exact represents value'

end Gems.Engine
