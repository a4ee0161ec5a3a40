import Gems.Engine.Contents

set_option autoImplicit false

namespace Gems.Engine

open Lib Prog Catalog Storage

-- The slots that the primary index points to.
def slotSet (slots : Tuid → Option SlotPointer) : Set SlotPointer := {p | ∃ id, slots id = some p}

structure Contents (bytes : Bytes) (slots : Tuid → Option SlotPointer) (map : Tuid → Option Entity) :
    Prop where
  apart : ∀ id id' p, slots id = some p → slots id' = some p → id = id'
  find : ∀ id p, slots id = some p → ∃ e c, map id = some e ∧ Holds bytes p c e ∧ e.1.id = id
  absent : ∀ id, slots id = none → map id = none

structure Slotted (page : PageSize) (s : ExtentManager) (slots : Tuid → Option SlotPointer)
    (map : Tuid → Option Entity) : Prop where
  held : Held page s (slotSet slots)
  few : s.extents.length ≤ 4114
  contents : Contents s.file.bytes slots map

variable {page : PageSize} {bytes bytes' : Bytes} {p : SlotPointer} {c : BlockClass} {e : Entity} {n : Nat}
  {fileId : UInt32} {live : Set SlotPointer} {slots : Tuid → Option SlotPointer} {map : Tuid → Option Entity}
  {s s' : ExtentManager} {id : Tuid} {header : EntityHeader} {body : List UInt8}

theorem Contents.absent_iff (contents : Contents bytes slots map) : slots id = none ↔ map id = none := by
  constructor
  · exact contents.absent id
  · intro none
    cases found : slots id with
    | none => rfl
    | some p =>
      obtain ⟨e, c, known, -⟩ := contents.find id p found
      rw [none] at known
      cases known

theorem Contents.slot (contents : Contents bytes slots map) (known : map id = some e) :
    e.1.id = id ∧ ∃ p c, slots id = some p ∧ Holds bytes p c e := by
  cases found : slots id with
  | none =>
    rw [contents.absent id found] at known
    cases known
  | some p =>
    obtain ⟨e', c, known', holds, owner⟩ := contents.find id p found
    obtain rfl : e' = e := Option.some.inj (known'.symm.trans known)
    exact ⟨owner, p, c, rfl, holds⟩

-- Only the bytes of the slots count.
theorem Contents.congr (contents : Contents bytes slots map)
    (same : ∀ p c, p ∈ slotSet slots → p.blockClass.toNat = c.index → ∀ i, slotBase p c ≤ i →
      i < slotBase p c + c.blockSize → bytes' i = bytes i) : Contents bytes' slots map where
  apart := contents.apart
  find := by
    intro id p found
    obtain ⟨e, c, known, holds, owner⟩ := contents.find id p found
    exact ⟨e, c, known, holds.congr (same p c ⟨id, found⟩ holds.kind), owner⟩
  absent := contents.absent

theorem Contents.payload (contents : Contents bytes slots map)
    (live : ∀ p ∈ slotSet slots, ∃ c, Lives fileId bytes n p c)
    (same : ∀ i, Payload n i → bytes' i = bytes i) : Contents bytes' slots map := by
  refine contents.congr fun p c mem kind i after before => ?_
  obtain ⟨d, lives⟩ := live p mem
  obtain rfl : d = c := BlockClass.ext_index (lives.kind.symm.trans kind)
  exact same i (lives.payload after before)

theorem Contents.patch (contents : Contents bytes slots map)
    (live : ∀ p ∈ slotSet slots, ∃ c, Lives fileId bytes n p c) (lives : Lives fileId bytes n p c)
    (fresh : p ∉ slotSet slots) {data : List UInt8} (fits : data.length ≤ c.blockSize) :
    Contents (patch bytes (slotBase p c) data) slots map := by
  refine contents.congr fun q d mem kind i after before => ?_
  obtain ⟨d', lives'⟩ := live q mem
  obtain rfl : d' = d := BlockClass.ext_index (lives'.kind.symm.trans kind)
  have other : q ≠ p := fun same => fresh (same ▸ mem)
  have apart := lives'.apart lives other
  exact patch_outside (by omega)

theorem slotSet_update (apart : ∀ id id' p, slots id = some p → slots id' = some p → id = id') :
    slotSet (Function.update slots id (some p)) ⊆ insert p (slotSet slots \ {q | slots id = some q}) := by
  rintro q ⟨id', found⟩
  by_cases same : id' = id
  · subst same
    rw [Function.update_self] at found
    exact .inl (Option.some.inj found).symm
  · rw [Function.update_of_ne same] at found
    exact .inr ⟨⟨id', found⟩, fun here => same (apart _ _ _ found here)⟩

theorem slotSet_erase (apart : ∀ id id' p, slots id = some p → slots id' = some p → id = id') :
    slotSet (Function.update slots id none) ⊆ slotSet slots \ {q | slots id = some q} := by
  rintro q ⟨id', found⟩
  by_cases same : id' = id
  · subst same
    rw [Function.update_self] at found
    cases found
  · rw [Function.update_of_ne same] at found
    exact ⟨⟨id', found⟩, fun here => same (apart _ _ _ found here)⟩

theorem Contents.update (contents : Contents bytes slots map) (holds : Holds bytes p c e)
    (owner : e.1.id = id) (fresh : p ∉ slotSet slots) :
    Contents bytes (Function.update slots id (some p)) (Function.update map id (some e)) where
  apart := by
    intro a b q foundA foundB
    have only {x : Tuid} (found : Function.update slots id (some p) x = some q) :
        x = id ∧ q = p ∨ x ≠ id ∧ slots x = some q := by
      by_cases same : x = id
      · subst same
        rw [Function.update_self] at found
        exact .inl ⟨rfl, (Option.some.inj found).symm⟩
      · rw [Function.update_of_ne same] at found
        exact .inr ⟨same, found⟩
    rcases only foundA with ⟨rfl, rfl⟩ | ⟨-, hereA⟩
    · rcases only foundB with ⟨rfl, -⟩ | ⟨-, hereB⟩
      · rfl
      · exact absurd ⟨b, hereB⟩ fresh
    · rcases only foundB with ⟨-, rfl⟩ | ⟨-, hereB⟩
      · exact absurd ⟨a, hereA⟩ fresh
      · exact contents.apart a b q hereA hereB
  find := by
    intro a q found
    by_cases same : a = id
    · subst same
      rw [Function.update_self] at found ⊢
      obtain rfl := Option.some.inj found
      exact ⟨e, c, rfl, holds, owner⟩
    · rw [Function.update_of_ne same] at found ⊢
      exact contents.find a q found
  absent := by
    intro a none
    by_cases same : a = id
    · subst same
      rw [Function.update_self] at none
      cases none
    · rw [Function.update_of_ne same] at none ⊢
      exact contents.absent a none

theorem Contents.erase (contents : Contents bytes slots map) :
    Contents bytes (Function.update slots id none) (Function.update map id none) where
  apart := by
    intro a b q foundA foundB
    have kept {x : Tuid} (found : Function.update slots id none x = some q) : slots x = some q := by
      by_cases same : x = id
      · subst same
        rw [Function.update_self] at found
        cases found
      · rwa [Function.update_of_ne same] at found
    exact contents.apart a b q (kept foundA) (kept foundB)
  find := by
    intro a q found
    by_cases same : a = id
    · subst same
      rw [Function.update_self] at found
      cases found
    · rw [Function.update_of_ne same] at found ⊢
      exact contents.find a q found
  absent := by
    intro a none
    by_cases same : a = id
    · subst same
      rw [Function.update_self]
    · rw [Function.update_of_ne same] at none ⊢
      exact contents.absent a none

end Gems.Engine
