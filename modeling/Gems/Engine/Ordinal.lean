import Gems.Index.Codec
import Mathlib.Data.Finset.Sort
import Mathlib.Order.Lattice

set_option autoImplicit false

namespace Gems.Engine

open Lib

-- A stable number for an entity, handed out when its id is first inserted.
structure Ordinal where
  value : UInt32

namespace Ordinal

theorem value_injective : Function.Injective fun o : Ordinal => o.value.toNat := by
  rintro ⟨a⟩ ⟨b⟩ same
  exact congrArg mk (UInt32.toNat_inj.mp same)

instance : LinearOrder Ordinal := LinearOrder.lift' (fun o => o.value.toNat) value_injective

instance : Index.FixedCodec Ordinal where
  len := 4
  encode o := littleEndian 4 o.value.toNat
  decode bytes := ⟨UInt32.ofNat (ofLittleEndian bytes)⟩
  length_encode _ := length_littleEndian 4 _
  decode_encode o := by rw [Index.ofNat_littleEndian]

theorem lt_iff {a b : Ordinal} : a < b ↔ a.value.toNat < b.value.toNat := Iff.rfl

end Ordinal

-- Which ordinals have a value in the indexed field; each bitmap as the set it holds.
structure SecondaryIndex where
  byValue : List UInt8 → Finset Ordinal

namespace SecondaryIndex

def new : SecondaryIndex := { byValue := fun _ => ∅ }

def insert (index : SecondaryIndex) (value : List UInt8) (ordinal : Ordinal) : SecondaryIndex :=
  { byValue := Function.update index.byValue value (Insert.insert ordinal (index.byValue value)) }

-- A bucket that got empty is dropped, and reads as empty.
def remove (index : SecondaryIndex) (value : List UInt8) (ordinal : Ordinal) : SecondaryIndex :=
  { byValue := Function.update index.byValue value ((index.byValue value).erase ordinal) }

def get (index : SecondaryIndex) (value : List UInt8) : Finset Ordinal := index.byValue value

variable {index index' : SecondaryIndex} {value value' : List UInt8} {ordinal ordinal' : Ordinal}

@[simp] theorem get_new : new.get value = ∅ := rfl

@[simp] theorem mem_insert : ordinal' ∈ (index.insert value ordinal).get value' ↔
    (value' = value ∧ ordinal' = ordinal) ∨ ordinal' ∈ index.get value' := by
  by_cases same : value' = value
  · subst same
    simp [insert, get]
  · simp [insert, get, same]

@[simp] theorem mem_remove : ordinal' ∈ (index.remove value ordinal).get value' ↔
    ¬ (value' = value ∧ ordinal' = ordinal) ∧ ordinal' ∈ index.get value' := by
  by_cases same : value' = value
  · subst same
    simp [remove, get]
  · simp [remove, get, same]

theorem ext (same : ∀ value ordinal, ordinal ∈ index.get value ↔ ordinal ∈ index'.get value) :
    index = index' := by
  cases index
  cases index'
  exact congrArg mk (funext fun value => Finset.ext (same value))

end SecondaryIndex

end Gems.Engine
