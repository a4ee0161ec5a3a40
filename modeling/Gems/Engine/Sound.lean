import Gems.Engine.Indexes
import Gems.Engine.Slotted

set_option autoImplicit false

namespace Gems.Engine

open Lib Prog Catalog Index Storage

abbrev Slots := Tuid → Option SlotPointer

abbrev Ordinals := Tuid → Option Ordinal

abbrev Reverse := Ordinal → Option Tuid

abbrev Entities := Tuid → Option Entity

/-- A store at rest: its indexes hold `slots`, `ords` and `ids`, and its slots the entities `map`. -/
structure Sound (os : PageSize) (s : Store) (slots : Slots) (ords : Ordinals) (ids : Reverse)
    (map : Entities) (depth : Nat) : Prop where
  primary : Indexed s.primary slots depth
  ordinalById : Indexed s.ordinalById ords depth
  idByOrdinal : Indexed s.idByOrdinal ids depth
  data : Slotted os s.data slots map
  file : s.data.fileId = 0
  known : ∀ id, slots id ≠ none → ords id ≠ none
  small : ∀ id ord, ords id = some ord → ord.value.toNat + 1 < 2 ^ 32

/-- The files of a store, with `n` extents and the slots `live` marked, as the next open finds them. -/
structure OnDisk (os : PageSize) (s : Store) (slots : Slots) (ords : Ordinals) (ids : Reverse)
    (map : Entities) (depth n : Nat) (live : Set SlotPointer) : Prop where
  primary : OnFile s.primary slots depth
  ordinalById : OnFile s.ordinalById ords depth
  idByOrdinal : OnFile s.idByOrdinal ids depth
  data : Laid os 0 s.data.file.onDisk.bytes s.data.file.onDisk.len n live
  contents : Contents s.data.file.onDisk.bytes slots map
  known : ∀ id, slots id ≠ none → ords id ≠ none
  small : ∀ id ord, ords id = some ord → ord.value.toNat + 1 < 2 ^ 32

-- The page ids, the commit numbers or the ordinals are used up.
def Exhausted (s : Store) : Prop :=
  Full s.primary.pager ∨ Full s.ordinalById.pager ∨ Full s.idByOrdinal.pager ∨
    s.nextOrdinal.toNat + 1 = 2 ^ 32

variable {os : PageSize} {s s' : Store} {slots : Slots} {ords ords' : Ordinals} {ids ids' : Reverse}
  {map : Entities} {depth depth' fuel n : Nat} {id : Tuid} {ord : Ordinal} {next : UInt32} {p : SlotPointer}
  {e : Entity}

theorem Sound.deeper (sound : Sound os s slots ords ids map depth) (deeper : depth ≤ depth') :
    Sound os s slots ords ids map depth' :=
  { sound with
    primary := sound.primary.deeper deeper
    ordinalById := sound.ordinalById.deeper deeper
    idByOrdinal := sound.idByOrdinal.deeper deeper }

theorem Sound.onDisk (sound : Sound os s slots ords ids map depth) :
    OnDisk os s slots ords ids map depth s.data.extents.length (slotSet slots) where
  primary := sound.primary.onFile
  ordinalById := sound.ordinalById.onFile
  idByOrdinal := sound.idByOrdinal.onFile
  data := sound.file ▸ sound.data.held.onDisk
  contents := by
    rw [ExtentFile.onDisk, sound.data.held.laid.truncate_eq]
    exact sound.data.contents
  known := sound.known
  small := sound.small

section Reads

theorem Contents.readAt {live : Set SlotPointer} (contents : Contents s.data.file.bytes slots map)
    (held : Held os s.data live) (marked : slotSet slots ⊆ live) (found : slots id = some p) :
    ∃ e, map id = some e ∧ s.readAt p = .ok e := by
  obtain ⟨e, c, known, holds, -⟩ := contents.find id p found
  obtain ⟨d, lives⟩ := held.laid.live p (marked ⟨id, found⟩)
  obtain rfl : d = c := BlockClass.ext_index (lives.kind.symm.trans holds.kind)
  exact ⟨e, known, readAt_spec held lives holds⟩

theorem Sound.readAt (sound : Sound os s slots ords ids map depth) (found : slots id = some p) :
    ∃ e, map id = some e ∧ s.readAt p = .ok e :=
  sound.data.contents.readAt sound.data.held (Set.Subset.refl _) found

theorem Sound.get (sound : Sound os s slots ords ids map depth) (enough : depth ≤ fuel) (id : Tuid) :
    s.get fuel id = .ok (map id) := by
  simp only [Store.get, sound.primary.get enough, bind, Except.bind]
  cases found : slots id with
  | none => exact congrArg Except.ok (sound.data.contents.absent id found).symm
  | some p =>
    obtain ⟨e, known, read⟩ := sound.readAt found
    rw [known]
    simp only [read]
    rfl

theorem Sound.scan (sound : Sound os s slots ords ids map depth) (enough : depth ≤ fuel) :
    ∃ entities, s.scanAll fuel = .ok entities ∧ (entities.Pairwise fun a b => a.1.id < b.1.id) ∧
      ∀ e, e ∈ entities ↔ map e.1.id = some e := by
  obtain ⟨entries, scanned, lists⟩ := sound.primary.scan enough
  have read : ∀ entry ∈ entries, ∃ e, map entry.1 = some e ∧ s.readAt entry.2 = .ok e := by
    rintro ⟨id, p⟩ mem
    obtain ⟨e, known, read⟩ := sound.readAt ((lists.mem_iff id p).mp mem)
    exact ⟨e, known, read⟩
  have owner {id : Tuid} {e : Entity} (known : map id = some e) : e.1.id = id :=
    (sound.data.contents.slot known).1
  refine ⟨entries.filterMap fun entry => map entry.1, ?_, ?_, fun e => ?_⟩
  · simp only [Store.scanAll, scanned, bind, Except.bind]
    exact mapM_known read
  · refine List.pairwise_filterMap.mpr (lists.sorted.imp fun below e here e' here' => ?_)
    rw [owner here, owner here']
    exact below
  · constructor
    · intro mem
      obtain ⟨entry, -, known⟩ := List.mem_filterMap.mp mem
      rwa [owner known]
    · intro known
      obtain ⟨-, p, c, found, -⟩ := sound.data.contents.slot known
      exact List.mem_filterMap.mpr ⟨(e.1.id, p), (lists.mem_iff _ _).mpr found, known⟩

end Reads

end Gems.Engine
