import Gems.Engine.Coherent
import Gems.Engine.Delete

set_option autoImplicit false

namespace Gems.Engine

open Lib Prog Catalog Index Storage

variable {os : PageSize} {s s' : Store} {slots : Slots} {ords : Ordinals} {ids : Reverse} {map : Entities}
  {depth fuel n : Nat} {live : Set SlotPointer} {entries : List (Tuid × SlotPointer)}

def Ahead (next : UInt32) (ords : Ordinals) (slots : Slots) : Prop :=
  ∀ id ord, slots id ≠ none → ords id = some ord → ord.value.toNat < next.toNat

-- The entities with one of these entries.
def entitiesOf (map : Entities) (entries : List (Tuid × SlotPointer)) : Entities :=
  fun id => if ∃ entry ∈ entries, entry.1 = id then map id else none

structure Rebuilding (s : Store) (ords : Ordinals) (map : Entities) (seen : List (Tuid × SlotPointer))
    (state : Store × Option UInt32) : Prop where
  files : ∃ k r m, state.1 = { s with byKind := k, bySchemaRef := r, entityTypeByName := m }
  coherent : Coherent state.1 ords (entitiesOf map seen)
  greatest : ∀ entry ∈ seen, ∀ ord, ords entry.1 = some ord →
    ∃ m, state.2 = some m ∧ ord.value.toNat ≤ m.toNat
  taken : ∀ m, state.2 = some m → ∃ id, ords id = some ⟨m⟩

theorem entitiesOf_snoc {entry : Tuid × SlotPointer} {e : Entity} (known : map entry.1 = some e) :
    entitiesOf map (entries ++ [entry]) = Function.update (entitiesOf map entries) entry.1 (some e) := by
  funext id
  by_cases same : id = entry.1
  · subst same
    rw [Function.update_self, entitiesOf, if_pos ⟨entry, by simp, rfl⟩, known]
  · rw [Function.update_of_ne same]
    have others : (∃ entry' ∈ entries ++ [entry], entry'.1 = id) ↔ ∃ entry' ∈ entries, entry'.1 = id := by
      constructor
      · rintro ⟨entry', mem, here⟩
        rcases List.mem_append.mp mem with old | last
        · exact ⟨entry', old, here⟩
        · exact absurd (List.mem_singleton.mp last ▸ here).symm same
      · rintro ⟨entry', mem, here⟩
        exact ⟨entry', List.mem_append_left _ mem, here⟩
    simp only [entitiesOf, others]

theorem rebuildEntry_eq {entry : Tuid × SlotPointer} {ord : Ordinal} {e : Entity}
    (got : BTree.get Ordinal fuel s.ordinalById entry.1 = .ok (some ord))
    (read : s.readAt entry.2 = .ok e) (m : Option UInt32) :
    ∃ m', Store.rebuildEntry fuel (s, m) entry = .ok (s.indexHeader e.1 ord, some m') ∧
      (m' = ord.value ∨ m = some m') ∧ ord.value.toNat ≤ m'.toNat ∧
      ∀ m₀, m = some m₀ → m₀.toNat ≤ m'.toNat := by
  simp only [Store.rebuildEntry, got, read, bind, Except.bind]
  cases m with
  | none => exact ⟨ord.value, rfl, .inl rfl, le_rfl, by simp⟩
  | some m =>
    by_cases more : m.toNat ≤ ord.value.toNat
    · refine ⟨ord.value, ?_, .inl rfl, le_rfl, by simpa using more⟩
      simp only [if_pos more]
      rfl
    · refine ⟨m, ?_, .inr rfl, by omega, by simp⟩
      simp only [if_neg more]
      rfl

theorem Rebuilding.turn (sound : Sound os s slots ords ids map depth) (enough : depth ≤ fuel)
    {seen : List (Tuid × SlotPointer)} {entry : Tuid × SlotPointer} {state : Store × Option UInt32}
    (rebuilding : Rebuilding s ords map seen state) (here : slots entry.1 = some entry.2)
    (new : ∀ entry' ∈ seen, entry'.1 ≠ entry.1) :
    ∃ state', Store.rebuildEntry fuel state entry = .ok state' ∧
      Rebuilding s ords map (seen ++ [entry]) state' := by
  obtain ⟨state, m⟩ := state
  obtain ⟨⟨k, r, names, files⟩, coherent, greatest, taken⟩ := rebuilding
  dsimp only at files coherent greatest taken
  obtain ⟨ord, numbered⟩ := Option.ne_none_iff_exists'.mp (sound.known entry.1 (by simp [here]))
  obtain ⟨e, known, read⟩ := sound.readAt here
  have absent : entitiesOf map seen entry.1 = none := by
    rw [entitiesOf, if_neg]
    rintro ⟨entry', mem, same⟩
    exact new entry' mem same
  have got : BTree.get Ordinal fuel state.ordinalById entry.1 = .ok (some ord) := by
    rw [files]
    exact (sound.ordinalById.get enough entry.1).trans (congrArg Except.ok numbered)
  have readHere : state.readAt entry.2 = .ok e := by
    rw [files]
    exact read
  obtain ⟨m', made, from_, reached, kept⟩ := rebuildEntry_eq got readHere m
  refine ⟨(state.indexHeader e.1 ord, some m'), made, ?_, ?_, ?_, ?_⟩
  · rw [files]
    exact ⟨_, _, _, rfl⟩
  · rw [entitiesOf_snoc known]
    exact coherent.indexed absent numbered e
  · intro entry' mem o found
    refine ⟨m', rfl, ?_⟩
    rcases List.mem_append.mp mem with old | last
    · obtain ⟨m₀, same, below⟩ := greatest entry' old o found
      exact below.trans (kept m₀ same)
    · obtain rfl := List.mem_singleton.mp last
      obtain rfl : o = ord := Option.some.inj (found.symm.trans numbered)
      exact reached
  · intro m₀ same
    obtain rfl := Option.some.inj same
    rcases from_ with rfl | old
    · exact ⟨entry.1, numbered⟩
    · exact taken _ old

structure Reopened (os : PageSize) (slots : Slots) (ords : Ordinals) (ids : Reverse) (map : Entities)
    (depth n : Nat) (s' : Store) : Prop where
  sound : Sound os s' slots ords ids map depth
  count : s'.data.extents.length = n
  coherent : Coherent s' ords map
  ahead : Ahead s'.nextOrdinal ords slots

theorem rebuild_spec (sound : Sound os s slots ords ids map depth) (enough : depth ≤ fuel)
    (fresh : Coherent s ords fun _ => none) :
    ∃ s', s.rebuildInMemoryIndexes fuel = .ok s' ∧
      Reopened os slots ords ids map depth s.data.extents.length s' := by
  obtain ⟨entries, scanned, lists⟩ := sound.primary.scan enough
  have start : Rebuilding s ords map [] (s, none) := by
    refine ⟨⟨_, _, _, rfl⟩, ?_, by simp, by simp⟩
    rw [show entitiesOf map [] = fun _ => none from funext fun id => by simp [entitiesOf]]
    exact fresh
  have turn (seen : List (Tuid × SlotPointer)) (entry : Tuid × SlotPointer) (state : Store × Option UInt32)
      (part : (seen ++ [entry]) <+: entries) (rebuilding : Rebuilding s ords map seen state) :
      ∃ state', Store.rebuildEntry fuel state entry = .ok state' ∧
        Rebuilding s ords map (seen ++ [entry]) state' := by
    have mem : entry ∈ entries := part.subset (by simp)
    have sorted : Sorted (seen ++ [entry]) := lists.sorted.sublist part.sublist
    refine rebuilding.turn sound enough ((lists.mem_iff _ _).mp mem) fun entry' mem' => ?_
    exact ne_of_lt ((List.pairwise_append.mp sorted).2.2 entry' mem' entry (by simp))
  obtain ⟨⟨t, greatest⟩, folded, rebuilt⟩ := foldlM_ok (Rebuilding s ords map) start turn
  obtain ⟨⟨k, r, names, files⟩, coherent, above, taken⟩ := rebuilt
  dsimp only at files coherent above taken
  have all : entitiesOf map entries = map := by
    funext id
    rw [entitiesOf]
    split
    next => rfl
    next missing =>
      refine (sound.data.contents.absent id ?_).symm
      cases found : slots id with
      | none => rfl
      | some p => exact absurd ⟨(id, p), (lists.mem_iff id p).mpr found, rfl⟩ missing
  rw [all] at coherent
  have at_rest (next : UInt32) : Sound os { t with nextOrdinal := next } slots ords ids map depth := by
    rw [files]
    exact ⟨sound.primary, sound.ordinalById, sound.idByOrdinal, sound.data, sound.file, sound.known,
      sound.small⟩
  have count (next : UInt32) : ({ t with nextOrdinal := next } : Store).data.extents.length =
      s.data.extents.length := by rw [files]
  have same (next : UInt32) : Coherent { t with nextOrdinal := next } ords map :=
    ⟨coherent.byKind, coherent.bySchemaRef, coherent.entityTypeByName⟩
  have listed (id : Tuid) (here : slots id ≠ none) : ∃ entry ∈ entries, entry.1 = id := by
    obtain ⟨p, found⟩ := Option.ne_none_iff_exists'.mp here
    exact ⟨(id, p), (lists.mem_iff id p).mpr found, rfl⟩
  cases greatest with
  | none =>
    refine ⟨{ t with nextOrdinal := 0 }, ?_, at_rest 0, count 0, same 0, ?_⟩
    · simp only [Store.rebuildInMemoryIndexes, scanned, folded, bind, Except.bind]
      rfl
    · intro id ord here known
      obtain ⟨entry, mem, rfl⟩ := listed id here
      obtain ⟨m, no, -⟩ := above entry mem ord known
      cases no
  | some m =>
    obtain ⟨owner, known⟩ := taken m rfl
    have room : m.toNat + 1 < 2 ^ 32 := sound.small owner _ known
    have next : (m + 1).toNat = m.toNat + 1 := by
      rw [UInt32.toNat_add, show (1 : UInt32).toNat = 1 from rfl, Nat.mod_eq_of_lt room]
    refine ⟨{ t with nextOrdinal := m + 1 }, ?_, at_rest _, count _, same _, ?_⟩
    · simp only [Store.rebuildInMemoryIndexes, scanned, folded, bind, Except.bind]
      rw [if_neg room.ne]
      rfl
    · intro id ord here found
      obtain ⟨entry, mem, rfl⟩ := listed id here
      obtain ⟨m', same, below⟩ := above entry mem ord found
      obtain rfl := Option.some.inj same
      dsimp only
      omega

theorem rebuildEntry_files {state state' : Store × Option UInt32} {entry : Tuid × SlotPointer}
    (made : Store.rebuildEntry fuel state entry = .ok state') :
    state'.1.primary = state.1.primary ∧ state'.1.data = state.1.data := by
  obtain ⟨found, -, made⟩ := ok_of_bind made
  cases found with
  | none => cases made
  | some ord =>
    obtain ⟨e, -, made⟩ := ok_of_bind made
    cases made
    exact ⟨rfl, rfl⟩

-- The indexes are rebuilt beside the files.
theorem rebuild_files {s s' : Store} (rebuilt : s.rebuildInMemoryIndexes fuel = .ok s') :
    s'.primary = s.primary ∧ s'.data = s.data := by
  have turn (state : Store × Option UInt32) (entry : Tuid × SlotPointer)
      (same : state.1.primary = s.primary ∧ state.1.data = s.data) :
      (∃ state', Store.rebuildEntry fuel state entry = .ok state' ∧
        state'.1.primary = s.primary ∧ state'.1.data = s.data) ∨
        ∃ e, Store.rebuildEntry fuel state entry = .error e ∧ True := by
    cases made : Store.rebuildEntry fuel state entry with
    | error e => exact .inr ⟨e, rfl, trivial⟩
    | ok state' =>
      obtain ⟨primary, data⟩ := rebuildEntry_files made
      exact .inl ⟨state', rfl, primary.trans same.1, data.trans same.2⟩
  obtain ⟨entries, -, rebuilt⟩ := ok_of_bind rebuilt
  obtain ⟨⟨t, most⟩, folded, rebuilt⟩ := ok_of_bind rebuilt
  have same : t.primary = s.primary ∧ t.data = s.data := by
    rcases foldlM_total (b := (s, none)) (l := entries) ⟨rfl, rfl⟩ fun state entry _ => turn state entry with
      ⟨_, folded', same⟩ | ⟨e, failed, -⟩
    · cases folded.symm.trans folded'
      exact same
    · cases folded.symm.trans failed
  cases most with
  | none =>
    cases rebuilt
    exact same
  | some m =>
    dsimp only at rebuilt
    split at rebuilt
    · cases rebuilt
    · cases rebuilt
      exact same

theorem openDir_files {s : Store} {dir : StoreFiles} (opened : Store.openDir os fuel dir = .ok s) :
    BTree.openFile os dir.primary = .ok s.primary ∧ s.data.file.bytes = dir.data.bytes := by
  obtain ⟨primary, openedP, opened⟩ := ok_of_bind opened
  obtain ⟨ordinalById, -, opened⟩ := ok_of_bind opened
  obtain ⟨idByOrdinal, -, opened⟩ := ok_of_bind opened
  obtain ⟨data, openedD, opened⟩ := ok_of_bind opened
  obtain ⟨sameP, sameD⟩ := rebuild_files opened
  refine ⟨sameP ▸ openedP, ?_⟩
  rw [sameD]
  cases file : ExtentManager.openFile os dir.data 0 true with
  | error e =>
    rw [file] at openedD
    cases openedD
  | ok d =>
    rw [file] at openedD
    cases openedD
    obtain ⟨extents, -, made⟩ := ok_of_bind file
    cases made
    rfl

theorem OnDisk.openDir (disk : OnDisk os s slots ords ids map depth n live) (marked : slotSet slots ⊆ live)
    (level : n * stride os / extentSize = n) (enough : depth ≤ fuel) :
    ∃ s', Store.openDir os fuel s.onDisk = .ok s' ∧ Reopened os slots ords ids map depth n s' := by
  obtain ⟨primary, openedP, indexedP⟩ := disk.primary.open os primary_caps
  obtain ⟨ordinalById, openedA, indexedA⟩ := disk.ordinalById.open os ordinal_caps
  obtain ⟨idByOrdinal, openedB, indexedB⟩ := disk.idByOrdinal.open os reverse_caps
  obtain ⟨data, openedD, held, count, file, same⟩ := disk.data.openFile level
  have slotted : Slotted os data slots map := by
    refine ⟨held.subset marked, ?_, ?_⟩
    · rw [count]
      exact (few_extents level).le
    · rw [same]
      exact disk.contents
  obtain ⟨s', rebuilt, reopened⟩ := rebuild_spec
    (s :=
      { primary, ordinalById, idByOrdinal, nextOrdinal := 0, data
        byKind := .new, bySchemaRef := .new, entityTypeByName := .new })
    ⟨indexedP, indexedA, indexedB, slotted, file, disk.known, disk.small⟩ enough
    ⟨.new _ _, .new _ _, .new _ _⟩
  refine ⟨s', ?_, count ▸ reopened⟩
  simp only [Store.openDir, Store.onDisk, openedP, openedA, openedB, openedD, Except.mapError, bind,
    Except.bind]
  exact rebuilt

end Gems.Engine
