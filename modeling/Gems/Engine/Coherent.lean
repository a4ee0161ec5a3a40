import Gems.Engine.Insert

set_option autoImplicit false

namespace Gems.Engine

open Lib Prog Catalog Index Storage

variable {os : PageSize} {s s' : Store} {slots : Slots} {ords ords' : Ordinals} {ids ids' : Reverse}
  {map : Entities} {depth fuel n : Nat} {id : Tuid} {ord : Ordinal} {next : UInt32} {p : SlotPointer}
  {e : Entity} {live : Set SlotPointer} {index : SecondaryIndex} {field : EntityHeader → Option (List UInt8)}

section Tracking

def kindField (header : EntityHeader) : Option (List UInt8) := some (kindKey header.entityKind)

def schemaRefField (header : EntityHeader) : Option (List UInt8) := some (schemaRefKey header.schemaRef)

-- Only the names of entity types are indexed.
def nameField (header : EntityHeader) : Option (List UInt8) :=
  if header.entityKind = .entityType then some (nameKey header.name) else none

/-- The index holds the ordinals of the present entities, each under the value of its field. -/
def Tracks (index : SecondaryIndex) (field : EntityHeader → Option (List UInt8)) (ords : Ordinals)
    (map : Entities) : Prop :=
  ∀ value ord, ord ∈ index.get value ↔
    ∃ id e, map id = some e ∧ ords id = some ord ∧ field e.1 = some value

def indexField (index : SecondaryIndex) (value : Option (List UInt8)) (ord : Ordinal) : SecondaryIndex :=
  match value with
  | none => index
  | some value => index.insert value ord

def deindexField (index : SecondaryIndex) (value : Option (List UInt8)) (ord : Ordinal) : SecondaryIndex :=
  match value with
  | none => index
  | some value => index.remove value ord

theorem Tracks.new (field : EntityHeader → Option (List UInt8)) (ords : Ordinals) :
    Tracks .new field ords fun _ => none := by
  intro value ord
  simp

theorem Tracks.indexed (tracks : Tracks index field ords map) (absent : map id = none)
    (here : ords id = some ord) (e : Entity) :
    Tracks (indexField index (field e.1) ord) field ords (Function.update map id (some e)) := by
  intro value o
  have others : (∃ id' e', Function.update map id (some e) id' = some e' ∧ ords id' = some o ∧
      field e'.1 = some value) ↔ (o = ord ∧ field e.1 = some value) ∨ o ∈ index.get value := by
    rw [tracks value o]
    constructor
    · rintro ⟨id', e', found, known, same⟩
      by_cases owner : id' = id
      · subst owner
        rw [Function.update_self] at found
        obtain rfl := Option.some.inj found
        exact .inl ⟨Option.some.inj (known.symm.trans here), same⟩
      · rw [Function.update_of_ne owner] at found
        exact .inr ⟨id', e', found, known, same⟩
    · rintro (⟨rfl, same⟩ | ⟨id', e', found, known, same⟩)
      · exact ⟨id, e, Function.update_self .., here, same⟩
      · have owner : id' ≠ id := by
          rintro rfl
          rw [absent] at found
          cases found
        exact ⟨id', e', by rwa [Function.update_of_ne owner], known, same⟩
  rw [others]
  cases field e.1 with
  | none => simp [indexField]
  | some v =>
    simp only [indexField, SecondaryIndex.mem_insert, Option.some.injEq]
    tauto

theorem Tracks.deindexed (tracks : Tracks index field ords map) (present : map id = some e)
    (here : ords id = some ord)
    (apart : ∀ id', map id' ≠ none → ords id' = some ord → id' = id) :
    Tracks (deindexField index (field e.1) ord) field ords (Function.update map id none) := by
  intro value o
  have others : (∃ id' e', Function.update map id none id' = some e' ∧ ords id' = some o ∧
      field e'.1 = some value) ↔ ¬ (field e.1 = some value ∧ o = ord) ∧ o ∈ index.get value := by
    rw [tracks value o]
    constructor
    · rintro ⟨id', e', found, known, same⟩
      have owner : id' ≠ id := by
        rintro rfl
        rw [Function.update_self] at found
        cases found
      rw [Function.update_of_ne owner] at found
      refine ⟨?_, id', e', found, known, same⟩
      rintro ⟨-, rfl⟩
      exact owner (apart id' (by simp [found]) known)
    · rintro ⟨other, id', e', found, known, same⟩
      have owner : id' ≠ id := by
        rintro rfl
        obtain rfl : e' = e := Option.some.inj (found.symm.trans present)
        exact other ⟨same, Option.some.inj (known.symm.trans here)⟩
      exact ⟨id', e', by rwa [Function.update_of_ne owner], known, same⟩
  rw [others]
  cases field e.1 with
  | none => simp [deindexField]
  | some v =>
    simp only [deindexField, SecondaryIndex.mem_remove, Option.some.injEq]
    tauto

theorem Tracks.unique {index' : SecondaryIndex} (tracks : Tracks index field ords map)
    (tracks' : Tracks index' field ords map) : index = index' :=
  SecondaryIndex.ext fun value ord => (tracks value ord).trans (tracks' value ord).symm

structure Coherent (s : Store) (ords : Ordinals) (map : Entities) : Prop where
  byKind : Tracks s.byKind kindField ords map
  bySchemaRef : Tracks s.bySchemaRef schemaRefField ords map
  entityTypeByName : Tracks s.entityTypeByName nameField ords map

theorem indexHeader_name (s : Store) (header : EntityHeader) (ord : Ordinal) :
    (s.indexHeader header ord).entityTypeByName =
      indexField s.entityTypeByName (nameField header) ord := by
  simp only [Store.indexHeader, nameField]
  split <;> rfl

theorem deindexHeader_name (s : Store) (header : EntityHeader) (ord : Ordinal) :
    (s.deindexHeader header ord).entityTypeByName =
      deindexField s.entityTypeByName (nameField header) ord := by
  simp only [Store.deindexHeader, nameField]
  split <;> rfl

theorem Coherent.indexed (coherent : Coherent s ords map) (absent : map id = none)
    (here : ords id = some ord) (e : Entity) :
    Coherent (s.indexHeader e.1 ord) ords (Function.update map id (some e)) where
  byKind := coherent.byKind.indexed absent here e
  bySchemaRef := coherent.bySchemaRef.indexed absent here e
  entityTypeByName := by
    rw [indexHeader_name]
    exact coherent.entityTypeByName.indexed absent here e

theorem Coherent.congr (coherent : Coherent s ords map) (same : SameIndexes s' s) :
    Coherent s' ords map where
  byKind := same.byKind ▸ coherent.byKind
  bySchemaRef := same.bySchemaRef ▸ coherent.bySchemaRef
  entityTypeByName := same.entityTypeByName ▸ coherent.entityTypeByName

end Tracking

end Gems.Engine
