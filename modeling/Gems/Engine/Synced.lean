import Gems.Engine.Planner
import Gems.Engine.Reopen

set_option autoImplicit false

namespace Gems.Engine

open Lib Prog Catalog Index Storage

variable {os : PageSize} {s s' : Store} {slots : Slots} {ords ords' : Ordinals} {ids ids' : Reverse}
  {map : Entities} {depth depth' fuel : Nat} {id : Tuid} {ord : Ordinal} {e : Entity}

def Pairs (slots : Slots) (ords : Ordinals) (ids : Reverse) : Prop :=
  ∀ id, slots id ≠ none → ∀ ord, ords id = some ord ↔ ids ord = some id

/-- A store at rest whose ordinals resolve. -/
structure Linked (os : PageSize) (s : Store) (slots : Slots) (ords : Ordinals) (ids : Reverse)
    (map : Entities) (depth : Nat) : Prop where
  sound : Sound os s slots ords ids map depth
  pairs : Pairs slots ords ids

/-- A store at rest whose bitmap indexes tell of its entities. -/
structure Synced (os : PageSize) (s : Store) (slots : Slots) (ords : Ordinals) (ids : Reverse)
    (map : Entities) (depth : Nat) : Prop where
  sound : Sound os s slots ords ids map depth
  pairs : Pairs slots ords ids
  coherent : Coherent s ords map

theorem Synced.linked (synced : Synced os s slots ords ids map depth) : Linked os s slots ords ids map depth :=
  ⟨synced.sound, synced.pairs⟩

theorem Synced.deeper (synced : Synced os s slots ords ids map depth) (deeper : depth ≤ depth') :
    Synced os s slots ords ids map depth' :=
  { synced with sound := synced.sound.deeper deeper }

theorem Pairs.unique (pairs : Pairs slots ords ids) {other : Tuid} (present : slots id ≠ none)
    (present' : slots other ≠ none) (here : ords id = some ord) (there : ords other = some ord) : other = id := by
  have back := (pairs id present ord).mp here
  have back' := (pairs other present' ord).mp there
  exact Option.some.inj (back'.symm.trans back)

theorem Sound.present_iff (sound : Sound os s slots ords ids map depth) (id : Tuid) :
    slots id ≠ none ↔ map id ≠ none := by
  rw [ne_eq, ne_eq, sound.data.contents.absent_iff]

theorem Linked.apart (linked : Linked os s slots ords ids map depth) (present : map id ≠ none)
    (here : ords id = some ord) (other : Tuid) (present' : map other ≠ none) (there : ords other = some ord) :
    other = id := by
  rw [← linked.sound.present_iff] at present present'
  exact linked.pairs.unique present present' here there

theorem Sound.owner (sound : Sound os s slots ords ids map depth) (known : map id = some e) : e.1.id = id :=
  (sound.data.contents.slot known).1

section Fields

theorem kindKey_injective : Function.Injective kindKey := by
  intro k k' same
  have code : k.toU8 = k'.toU8 := (List.cons.inj same).1
  have read := EntityKind.fromU8_toU8 k
  rw [code, EntityKind.fromU8_toU8] at read
  exact (Except.ok.inj read).symm

theorem schemaRefKey_injective : Function.Injective schemaRefKey := by
  rintro ⟨a, ha⟩ ⟨b, hb⟩ same
  obtain rfl : a = b := same
  rfl

theorem nameKey_injective : Function.Injective nameKey := by
  intro a b same
  have text : utf8 a = utf8 b := same
  rw [← fromUtf8Lossy_utf8 a, text, fromUtf8Lossy_utf8]

theorem nameField_eq {header : EntityHeader} {name : String} :
    nameField header = some (nameKey name) ↔ header.entityKind = .entityType ∧ header.name = name := by
  rw [nameField]
  split
  next isType =>
    rw [Option.some.injEq, nameKey_injective.eq_iff]
    exact (and_iff_right isType).symm
  next other => simp [other]

end Fields

section Answers

def Names (list : List Tuid) (these : Tuid → Prop) : Prop := list.Nodup ∧ ∀ id, id ∈ list ↔ these id

theorem resolveOrdinals_known {ordinals : Finset Ordinal} {ids : Ordinal → Option Tuid}
    (known : ∀ ord ∈ ordinals.sort (· ≤ ·), ∃ id, ids ord = some id ∧
      BTree.get Tuid fuel s.idByOrdinal ord = .ok (some id)) :
    s.resolveOrdinals fuel ordinals = .ok ((ordinals.sort (· ≤ ·)).filterMap ids) := by
  refine mapM_known fun ord mem => ?_
  obtain ⟨id, here, got⟩ := known ord mem
  refine ⟨id, here, ?_⟩
  rw [got]
  rfl

theorem Linked.resolve (linked : Linked os s slots ords ids map depth) (enough : depth ≤ fuel)
    {found : Finset Ordinal} (owned : ∀ ord ∈ found, ∃ id, map id ≠ none ∧ ords id = some ord) :
    ∃ list, s.resolveOrdinals fuel found = .ok list ∧
      Names list fun id => map id ≠ none ∧ ∃ ord ∈ found, ords id = some ord := by
  have pairs {id : Tuid} (present : map id ≠ none) (ord : Ordinal) : ords id = some ord ↔ ids ord = some id := by
    rw [← linked.sound.present_iff] at present
    exact linked.pairs id present ord
  have owner {ord : Ordinal} (mem : ord ∈ found) : ∃ id, map id ≠ none ∧ ids ord = some id := by
    obtain ⟨id, present, here⟩ := owned ord mem
    exact ⟨id, present, (pairs present ord).mp here⟩
  have read : ∀ ord ∈ found.sort (· ≤ ·), ∃ id, ids ord = some id ∧
      BTree.get Tuid fuel s.idByOrdinal ord = .ok (some id) := by
    intro ord mem
    obtain ⟨id, -, here⟩ := owner ((Finset.mem_sort _).mp mem)
    refine ⟨id, here, ?_⟩
    rw [linked.sound.idByOrdinal.get enough, here]
  refine ⟨_, resolveOrdinals_known read, ?_, fun id => ?_⟩
  · refine List.pairwise_filterMap.mpr ((Finset.sort_nodup found (· ≤ ·)).imp_of_mem ?_)
    intro a b memA memB apart x hereX y hereY same
    subst same
    obtain ⟨id, present, hereA⟩ := owner ((Finset.mem_sort _).mp memA)
    obtain rfl : id = x := Option.some.inj (hereA.symm.trans hereX)
    have known := (pairs present a).mpr hereX
    have known' := (pairs present b).mpr hereY
    exact apart (Option.some.inj (known.symm.trans known'))
  · rw [List.mem_filterMap]
    constructor
    · rintro ⟨ord, mem, here⟩
      rw [Finset.mem_sort] at mem
      obtain ⟨id', present, here'⟩ := owner mem
      obtain rfl : id' = id := Option.some.inj (here'.symm.trans here)
      exact ⟨present, ord, mem, (pairs present ord).mpr here⟩
    · rintro ⟨present, ord, mem, here⟩
      exact ⟨ord, (Finset.mem_sort _).mpr mem, (pairs present ord).mp here⟩

theorem Linked.lookup (linked : Linked os s slots ords ids map depth) (enough : depth ≤ fuel)
    {index : SecondaryIndex} {field : EntityHeader → Option (List UInt8)} (tracks : Tracks index field ords map)
    (value : List UInt8) :
    ∃ list, s.resolveOrdinals fuel (index.get value) = .ok list ∧
      Names list fun id => ∃ e, map id = some e ∧ field e.1 = some value := by
  have owned : ∀ ord ∈ index.get value, ∃ id, map id ≠ none ∧ ords id = some ord := by
    intro ord mem
    obtain ⟨id, e, known, here, -⟩ := (tracks value ord).mp mem
    exact ⟨id, by simp [known], here⟩
  obtain ⟨list, made, nodup, mem⟩ := linked.resolve enough owned
  refine ⟨list, made, nodup, fun id => (mem id).trans ?_⟩
  constructor
  · rintro ⟨present, ord, inside, here⟩
    obtain ⟨id', e, known, here', same⟩ := (tracks value ord).mp inside
    obtain rfl := linked.apart present here id' (by simp [known]) here'
    exact ⟨e, known, same⟩
  · rintro ⟨e, known, same⟩
    have present : map id ≠ none := by simp [known]
    obtain ⟨ord, here⟩ :=
      Option.ne_none_iff_exists'.mp (linked.sound.known id ((linked.sound.present_iff id).mpr present))
    exact ⟨present, ord, (tracks value ord).mpr ⟨id, e, known, here, same⟩, here⟩

theorem Linked.queryByKind (linked : Linked os s slots ords ids map depth) (enough : depth ≤ fuel)
    (tracks : Tracks s.byKind kindField ords map) (kind : EntityKind) :
    ∃ list, s.queryByKind fuel kind = .ok list ∧
      Names list fun id => ∃ e, map id = some e ∧ e.1.entityKind = kind := by
  obtain ⟨list, made, nodup, mem⟩ := linked.lookup enough tracks (kindKey kind)
  refine ⟨list, made, nodup, fun id => (mem id).trans ?_⟩
  simp only [kindField, Option.some.injEq, kindKey_injective.eq_iff]

theorem Linked.queryBySchemaRef (linked : Linked os s slots ords ids map depth) (enough : depth ≤ fuel)
    (tracks : Tracks s.bySchemaRef schemaRefField ords map) (typeId : Tuid) :
    ∃ list, s.queryBySchemaRef fuel typeId = .ok list ∧
      Names list fun id => ∃ e, map id = some e ∧ e.1.schemaRef = typeId := by
  obtain ⟨list, made, nodup, mem⟩ := linked.lookup enough tracks (schemaRefKey typeId)
  refine ⟨list, made, nodup, fun id => (mem id).trans ?_⟩
  simp only [schemaRefField, Option.some.injEq, schemaRefKey_injective.eq_iff]

theorem Synced.queryByKind (synced : Synced os s slots ords ids map depth) (enough : depth ≤ fuel)
    (kind : EntityKind) :
    ∃ list, s.queryByKind fuel kind = .ok list ∧
      Names list fun id => ∃ e, map id = some e ∧ e.1.entityKind = kind :=
  synced.linked.queryByKind enough synced.coherent.byKind kind

theorem Synced.queryBySchemaRef (synced : Synced os s slots ords ids map depth) (enough : depth ≤ fuel)
    (typeId : Tuid) :
    ∃ list, s.queryBySchemaRef fuel typeId = .ok list ∧
      Names list fun id => ∃ e, map id = some e ∧ e.1.schemaRef = typeId :=
  synced.linked.queryBySchemaRef enough synced.coherent.bySchemaRef typeId

-- The entity type has this name.
def IsType (map : Entities) (name : String) (id : Tuid) : Prop :=
  ∃ e, map id = some e ∧ e.1.entityKind = .entityType ∧ e.1.name = name

theorem Synced.findEntityTypeByName (synced : Synced os s slots ords ids map depth) (enough : depth ≤ fuel)
    (name : String) :
    ∃ found, s.findEntityTypeByName fuel name = .ok found ∧ (∀ id, found = some id → IsType map name id) ∧
      (found = none → ∀ id, ¬ IsType map name id) := by
  obtain ⟨list, made, -, mem⟩ := synced.linked.lookup enough synced.coherent.entityTypeByName (nameKey name)
  have types (id : Tuid) : id ∈ list ↔ IsType map name id := by
    rw [mem id]
    simp only [nameField_eq, IsType]
  refine ⟨list.head?, ?_, fun id here => ?_, fun none id => ?_⟩
  · rw [Store.findEntityTypeByName, made]
    rfl
  · exact (types id).mp (List.mem_of_mem_head? here)
  · rw [← types, List.head?_eq_none_iff.mp none]
    exact List.not_mem_nil

end Answers

end Gems.Engine
