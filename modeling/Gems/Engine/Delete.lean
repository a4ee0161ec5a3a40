import Gems.Engine.Insert

set_option autoImplicit false

namespace Gems.Engine

open Lib Prog Catalog Index Storage

variable {os : PageSize} {s s' : Store} {slots : Slots} {ords ords' : Ordinals} {ids ids' : Reverse}
  {map : Entities} {depth fuel n : Nat} {id : Tuid} {ord : Ordinal} {next : UInt32} {p : SlotPointer}
  {e : Entity} {d : ExtentManager}

-- The maps of ordinals while the ordinal `ord` of `id` is retired.
inductive Retiring (ords : Ordinals) (ids : Reverse) (id : Tuid) (ord : Ordinal) :
    Ordinals → Reverse → Prop
  | kept : Retiring ords ids id ord ords ids
  | half : Retiring ords ids id ord (Function.update ords id none) ids
  | retired : Retiring ords ids id ord (Function.update ords id none) (Function.update ids ord none)

theorem Retiring.of_some (retiring : Retiring ords ids id ord ords' ids') {other : Tuid} {o : Ordinal}
    (found : ords' other = some o) : ords other = some o := by
  have update (found : Function.update ords id none other = some o) : ords other = some o := by
    by_cases same : other = id
    · subst same
      rw [Function.update_self] at found
      cases found
    · rwa [Function.update_of_ne same] at found
  cases retiring with
  | kept => exact found
  | half => exact update found
  | retired => exact update found

theorem Retiring.known (retiring : Retiring ords ids id ord ords' ids')
    (known : ∀ id, slots id ≠ none → ords id ≠ none) (other : Tuid)
    (here : Function.update slots id none other ≠ none) : ords' other ≠ none := by
  have apart : other ≠ id := by
    rintro rfl
    rw [Function.update_self] at here
    exact here rfl
  rw [Function.update_of_ne apart] at here
  have update : Function.update ords id none other ≠ none := by
    rw [Function.update_of_ne apart]
    exact known other here
  cases retiring with
  | kept => exact known other here
  | half => exact update
  | retired => exact update

theorem Slotted.erase (slotted : Slotted os d slots map) :
    Slotted os d (Function.update slots id none) (Function.update map id none) :=
  ⟨slotted.held.subset ((slotSet_erase slotted.contents.apart).trans Set.sdiff_subset), slotted.few,
    slotted.contents.erase⟩

structure Deleted (os : PageSize) (s : Store) (slots : Slots) (ords : Ordinals) (ids : Reverse)
    (map : Entities) (depth : Nat) (id : Tuid) (ord : Ordinal) (s' : Store) : Prop where
  here : ords id = some ord
  present : slots id ≠ none
  sound : Sound os s' (Function.update slots id none) (Function.update ords id none)
    (Function.update ids ord none) (Function.update map id none) depth
  next : s'.nextOrdinal = s.nextOrdinal
  indexes : SameIndexes s' (deindexed s (map id) ord)
  extents : s'.data.extents = s.data.extents

structure Missing (os : PageSize) (s : Store) (slots : Slots) (ords : Ordinals) (ids : Reverse)
    (map : Entities) (depth : Nat) (id : Tuid) (s' : Store) : Prop where
  absent : slots id = none
  same : ∃ t, s' = { s with primary := t }
  sound : Sound os s' slots ords ids map depth

section Halts

variable (os : PageSize) (s : Store) (slots : Slots) (ords : Ordinals) (ids : Reverse) (map : Entities)
  (depth : Nat) (id : Tuid)

def ErasedLeft (f : Fault) (s' : Store) : Prop :=
  ∃ ord ords' ids', slots id ≠ none ∧ ords id = some ord ∧ Retiring ords ids id ord ords' ids' ∧
    StoreLeft os s (Function.update slots id none) ords' ids' (Function.update map id none) depth
      s.data.extents.length f s'

-- A deletion that ended before the bitmap indexes changed.
def RetireHalt (f : Fault) (s' : Store) : Prop :=
  (f = .panicked ∧ Exhausted s') ∨ StoreLeft os s slots ords ids map depth s.data.extents.length f s' ∨
    ErasedLeft os s slots ords ids map depth id f s'

-- One that ended while it freed the slot; after an error it is as if it had returned.
def FreeHalt (f : Fault) (s' : Store) : Prop :=
  f = .stopped ∧ ErasedLeft os s slots ords ids map depth id f s' ∨
    f = .refused ∧ ∃ ord, Deleted os s slots ords ids map depth id ord s'

def DeleteHalt (f : Fault) (s' : Store) : Prop :=
  RetireHalt os s slots ords ids map depth id f s' ∨ FreeHalt os s slots ords ids map depth id f s'

variable {os s slots ords ids map depth id}

theorem DeleteHalt.own {f : Fault} {s' : Store} (halt : DeleteHalt os s slots ords ids map depth id f s')
    (own : ¬ f.Outside) : f = .panicked ∧ Exhausted s' := by
  rcases halt with (panic | kept | ⟨_, _, _, -, -, -, erased⟩) | ⟨stop, -⟩ | ⟨refused, -⟩
  · exact panic
  · exact absurd kept.outside own
  · exact absurd erased.outside own
  · exact absurd (.inl stop) own
  · exact absurd (.inr refused) own

end Halts

-- The deletion until the slot is all that is left of the entity.
def Store.untilRetired (os : PageSize) (fuel : Nat) (id : Tuid) : Gems.Prog Store (Option SlotPointer) := do
  match ← Store.onPrimary (BTree.delete SlotPointer os fuel id) with
  | none => pure none
  | some ptr =>
    let s ← view
    let (header, _) ← ofResult (s.readAt ptr)
    Store.retireOrdinal os fuel id header
    pure (some ptr)

def Store.freeRetired : Option SlotPointer → Gems.Prog Store Bool
  | none => pure false
  | some ptr => do
    Store.onData (ExtentManager.free ptr)
    pure true

theorem delete_eq (os : PageSize) (fuel : Nat) (id : Tuid) :
    Store.delete os fuel id = Store.untilRetired os fuel id >>= Store.freeRetired := by
  simp only [Store.delete, Store.untilRetired, bind_assoc]
  congr 1
  funext found
  cases found with
  | none => rfl
  | some ptr => simp only [bind_assoc, pure_bind, Store.freeRetired]

section Phases

variable {t : BTree} {p : SlotPointer}

theorem erasePrimary_spec (sound : Sound os s slots ords ids map depth) (enough : depth ≤ fuel) (id : Tuid) :
    Spec (Store.onPrimary (BTree.delete SlotPointer os fuel id)) s
      (fun removed s' => ∃ t, s' = { s with primary := t } ∧ removed = slots id ∧
        Indexed t (Function.update slots id none) depth)
      (RetireHalt os s slots ords ids map depth id) := by
  have left := sound.ordinalById
  have right := sound.idByOrdinal
  refine spec_focus (spec_weaken (sound.primary.delete enough os id) ?_ ?_)
  · exact fun _ t ⟨found, indexed⟩ => ⟨t, rfl, found, indexed⟩
  · rintro f t ((kept | erased) | ⟨panic, full⟩)
    · have outside := kept.outside
      exact .inr (.inl ⟨kept, left.left outside, right.left outside, sound.data.left sound.file outside, sound.known,
        sound.small, fun _ => ⟨rfl, rfl, rfl⟩⟩)
    · have outside := erased.outside
      cases found : slots id with
      | none =>
        rw [Function.update_eq_self_iff.mpr found.symm] at erased
        exact .inr (.inl ⟨erased, left.left outside, right.left outside, sound.data.left sound.file outside,
          sound.known, sound.small, fun _ => ⟨rfl, rfl, rfl⟩⟩)
      | some p =>
        obtain ⟨ord, here⟩ := Option.ne_none_iff_exists'.mp (sound.known id (by simp [found]))
        have retiring : Retiring ords ids id ord ords ids := .kept
        refine .inr (.inr ⟨ord, ords, ids, by simp [found], here, retiring, ?_⟩)
        exact ⟨erased, left.left outside, right.left outside, sound.data.erase.left sound.file outside,
          retiring.known sound.known, sound.small, fun _ => ⟨rfl, rfl, rfl⟩⟩
    · exact .inl ⟨panic, .inl full⟩

theorem retireOrdinal_spec (sound : Sound os s slots ords ids map depth) (enough : depth ≤ fuel)
    (present : slots id ≠ none) (here : ords id = some ord) (indexed : Indexed t (Function.update slots id none) depth)
    (header : EntityHeader) :
    Spec (Store.retireOrdinal os fuel id header) { s with primary := t }
      (fun _ s' => ∃ a b,
        s' = { s.deindexHeader header ord with primary := t, ordinalById := a, idByOrdinal := b } ∧
        Indexed a (Function.update ords id none) depth ∧ Indexed b (Function.update ids ord none) depth)
      (RetireHalt os s slots ords ids map depth id) := by
  have left : Indexed s.ordinalById ords depth := sound.ordinalById
  have right : Indexed s.idByOrdinal ids depth := sound.idByOrdinal
  -- the ordinal is on its way out, and the slot still marked
  have cut {ords' : Ordinals} {ids' : Reverse} {a b : BTree} {f : Fault}
      (retiring : Retiring ords ids id ord ords' ids') (left : IndexLeft f a ords' depth)
      (right : IndexLeft f b ids' depth) : RetireHalt os s slots ords ids map depth id f
        { s with primary := t, ordinalById := a, idByOrdinal := b } := by
    have outside := left.outside
    refine .inr (.inr ⟨ord, ords', ids', present, here, retiring, ?_⟩)
    exact ⟨indexed.left outside, left, right, sound.data.erase.left sound.file outside,
      retiring.known sound.known, fun id o found => sound.small id o (retiring.of_some found),
      fun _ => ⟨rfl, rfl, rfl⟩⟩
  have first : Spec (Store.onOrdinalById (BTree.delete Ordinal os fuel id)) { s with primary := t }
      (fun removed s' => ∃ a, s' = { s with primary := t, ordinalById := a } ∧ removed = some ord ∧
        Indexed a (Function.update ords id none) depth)
      (RetireHalt os s slots ords ids map depth id) := by
    refine spec_focus (spec_weaken (left.delete enough os id) ?_ ?_)
    · exact fun _ a ⟨removed, indexed⟩ => ⟨a, rfl, removed.trans here, indexed⟩
    · rintro f a ((kept | half) | ⟨panic, full⟩)
      · exact cut .kept kept (right.left kept.outside)
      · exact cut .half half (right.left half.outside)
      · exact .inl ⟨panic, .inr (.inl full)⟩
  refine spec_bind first ?_
  rintro _ _ ⟨a, rfl, rfl, indexedA⟩
  have second : Spec (Store.onIdByOrdinal (BTree.delete Tuid os fuel ord))
      { s with primary := t, ordinalById := a }
      (fun _ s' => ∃ b, s' = { s with primary := t, ordinalById := a, idByOrdinal := b } ∧
        Indexed b (Function.update ids ord none) depth)
      (RetireHalt os s slots ords ids map depth id) := by
    refine spec_focus (spec_weaken (right.delete enough os ord) ?_ ?_)
    · exact fun _ b ⟨_, indexed⟩ => ⟨b, rfl, indexed⟩
    · rintro f b ((half | whole) | ⟨panic, full⟩)
      · exact cut .half (indexedA.left half.outside) half
      · exact cut .retired (indexedA.left whole.outside) whole
      · exact .inl ⟨panic, .inr (.inr (.inl full))⟩
  refine spec_bind second ?_
  rintro _ _ ⟨b, rfl, indexedB⟩
  exact spec_update ⟨a, b, rfl, indexedA, indexedB⟩

theorem freeRetired_spec {a b : BTree} {e : Entity} (sound : Sound os s slots ords ids map depth)
    (found : slots id = some p) (here : ords id = some ord) (known : map id = some e)
    (indexed : Indexed t (Function.update slots id none) depth)
    (indexedA : Indexed a (Function.update ords id none) depth)
    (indexedB : Indexed b (Function.update ids ord none) depth) :
    Spec (Store.onData (ExtentManager.free p))
      { s.deindexHeader e.1 ord with primary := t, ordinalById := a, idByOrdinal := b }
      (fun _ s' => Deleted os s slots ords ids map depth id ord s')
      (FreeHalt os s slots ords ids map depth id) := by
  have start := sound.data
  have retiring : Retiring ords ids id ord _ _ := .retired
  have small (other : Tuid) (o : Ordinal) (found : Function.update ords id none other = some o) :
      o.value.toNat + 1 < 2 ^ 32 := sound.small other o (retiring.of_some found)
  have freed {d : ExtentManager} (cleared : Cleared os s.data (slotSet slots) p d) :
      Deleted os s slots ords ids map depth id ord
        { s.deindexHeader e.1 ord with primary := t, ordinalById := a, idByOrdinal := b, data := d } := by
    have only : slotSet (Function.update slots id none) ⊆ slotSet slots \ {p} := by
      refine (slotSet_erase start.contents.apart).trans fun q ⟨mem, other⟩ => ⟨mem, ?_⟩
      rintro rfl
      exact other found
    have contents : Contents d.file.bytes slots map := start.contents.payload start.held.laid.live cleared.same
    exact
      { here := here
        present := by simp [found]
        sound :=
          { primary := indexed
            ordinalById := indexedA
            idByOrdinal := indexedB
            data := ⟨cleared.held.subset only, by rw [cleared.extents]; exact start.few, contents.erase⟩
            file := cleared.file.trans sound.file
            known := retiring.known sound.known
            small := small }
        next := rfl
        indexes := by
          rw [known]
          exact ⟨rfl, rfl, rfl⟩
        extents := cleared.extents }
  refine spec_focus (spec_weaken (start.held.free ⟨id, found⟩) (fun _ d cleared => freed cleared) ?_)
  rintro f d (⟨rfl, rfl⟩ | ⟨refused, cleared⟩)
  · refine .inl ⟨rfl, ord, _, _, by simp [found], here, retiring, ?_⟩
    exact ⟨indexed.left (.inl rfl), indexedA.left (.inl rfl), indexedB.left (.inl rfl),
      start.erase.left sound.file (.inl rfl), retiring.known sound.known, small, fun no => by cases no⟩
  · exact .inr ⟨refused, ord, freed cleared⟩

end Phases

theorem delete_parts (sound : Sound os s slots ords ids map depth) (enough : depth ≤ fuel) (id : Tuid) :
    Spec (Store.untilRetired os fuel id) s
      (fun retired t => Spec (Store.freeRetired retired) t
        (fun removed s' => (removed = false ∧ Missing os s slots ords ids map depth id s') ∨
          (removed = true ∧ ∃ ord, Deleted os s slots ords ids map depth id ord s'))
        (FreeHalt os s slots ords ids map depth id))
      (RetireHalt os s slots ords ids map depth id) := by
  refine spec_bind (erasePrimary_spec sound enough id) ?_
  rintro _ _ ⟨t, rfl, rfl, indexed⟩
  cases found : slots id with
  | none =>
    rw [Function.update_eq_self_iff.mpr found.symm] at indexed
    exact spec_pure (spec_pure (.inl ⟨rfl, found, ⟨t, rfl⟩, { sound with primary := indexed }⟩))
  | some p =>
    have present : slots id ≠ none := by simp [found]
    obtain ⟨ord, here⟩ := Option.ne_none_iff_exists'.mp (sound.known id present)
    obtain ⟨e, known, read⟩ := sound.readAt found
    refine spec_view_bind ?_
    rw [show ({ s with primary := t } : Store).readAt p = s.readAt p from rfl, read]
    refine spec_pure_bind (spec_bind (retireOrdinal_spec sound enough present here indexed e.1) ?_)
    rintro - _ ⟨a, b, rfl, indexedA, indexedB⟩
    refine spec_pure (spec_bind (freeRetired_spec sound found here known indexed indexedA indexedB) ?_)
    exact fun _ _ deleted => spec_pure (.inr ⟨rfl, ord, deleted⟩)

theorem delete_spec (sound : Sound os s slots ords ids map depth) (enough : depth ≤ fuel) (id : Tuid) :
    Spec (Store.delete os fuel id) s
      (fun removed s' => (removed = false ∧ Missing os s slots ords ids map depth id s') ∨
        (removed = true ∧ ∃ ord, Deleted os s slots ords ids map depth id ord s'))
      (DeleteHalt os s slots ords ids map depth id) := by
  rw [delete_eq]
  exact spec_parts (delete_parts sound enough id) (fun _ _ => .inl) fun _ _ => .inr

end Gems.Engine
