import Gems.Engine.Sound

set_option autoImplicit false

namespace Gems.Engine

open Lib Prog Catalog Index Storage

variable {os : PageSize} {s s' : Store} {slots : Slots} {ords ords' : Ordinals} {ids ids' : Reverse}
  {map : Entities} {depth fuel n : Nat} {id : Tuid} {ord : Ordinal} {next next' : UInt32} {p : SlotPointer}
  {header : EntityHeader} {body : List UInt8} {c : BlockClass} {e : Fault}

section Numbers

inductive Numbered (ords : Ordinals) (ids : Reverse) (next : UInt32) (id : Tuid) :
    Ordinal → Ordinals → Reverse → UInt32 → Prop
  | known {ord : Ordinal} (here : ords id = some ord) : Numbered ords ids next id ord ords ids next
  | fresh (none : ords id = none) (room : next.toNat + 1 ≠ 2 ^ 32) :
    Numbered ords ids next id ⟨next⟩ (Function.update ords id (some ⟨next⟩))
      (Function.update ids ⟨next⟩ (some id)) (next + 1)

-- A new ordinal goes into one map before the other.
inductive Numbering (ords : Ordinals) (ids : Reverse) (next : UInt32) (id : Tuid) :
    Ordinals → Reverse → Prop
  | whole {ord : Ordinal} {ords' : Ordinals} {ids' : Reverse} {next' : UInt32}
    (numbered : Numbered ords ids next id ord ords' ids' next') : Numbering ords ids next id ords' ids'
  | unnumbered (absent : ords id = none) : Numbering ords ids next id ords ids
  | half (absent : ords id = none) (room : next.toNat + 1 ≠ 2 ^ 32) :
    Numbering ords ids next id (Function.update ords id (some ⟨next⟩)) ids

theorem Numbered.here (numbered : Numbered ords ids next id ord ords' ids' next') :
    ords' id = some ord := by
  cases numbered with
  | known here => exact here
  | fresh none room => exact Function.update_self id _ ords

theorem Numbered.keeps (numbered : Numbered ords ids next id ord ords' ids' next') {other : Tuid}
    {o : Ordinal} (known : ords other = some o) : ords' other = some o := by
  cases numbered with
  | known here => exact known
  | fresh none room =>
    have apart : other ≠ id := by
      rintro rfl
      rw [none] at known
      cases known
    rwa [Function.update_of_ne apart]

theorem Numbered.again (numbered : Numbered ords ids next id ord ords' ids' next') (known : ords id ≠ none) :
    ords id = some ord ∧ ords' = ords ∧ ids' = ids := by
  cases numbered with
  | known here => exact ⟨here, rfl, rfl⟩
  | fresh none room => exact absurd none known

theorem small_update (small : ∀ id ord, ords id = some ord → ord.value.toNat + 1 < 2 ^ 32)
    (room : next.toNat + 1 ≠ 2 ^ 32) (id : Tuid) (a : Tuid) (o : Ordinal)
    (found : Function.update ords id (some ⟨next⟩) a = some o) : o.value.toNat + 1 < 2 ^ 32 := by
  by_cases same : a = id
  · subst same
    rw [Function.update_self] at found
    obtain rfl := Option.some.inj found
    have bound := next.toNat_lt
    dsimp only
    omega
  · rw [Function.update_of_ne same] at found
    exact small a o found

theorem Numbering.small (numbering : Numbering ords ids next id ords' ids')
    (small : ∀ id ord, ords id = some ord → ord.value.toNat + 1 < 2 ^ 32) :
    ∀ id ord, ords' id = some ord → ord.value.toNat + 1 < 2 ^ 32 := by
  cases numbering with
  | whole numbered =>
    cases numbered with
    | known here => exact small
    | fresh none room => exact small_update small room id
  | unnumbered absent => exact small
  | half absent room => exact small_update small room id

theorem Numbering.mono (numbering : Numbering ords ids next id ords' ids') {other : Tuid}
    (known : ords other ≠ none) : ords' other ≠ none := by
  have update : Function.update ords id (some ⟨next⟩) other ≠ none := by
    by_cases same : other = id
    · subst same
      rw [Function.update_self]
      simp
    · rwa [Function.update_of_ne same]
  cases numbering with
  | whole numbered =>
    cases numbered with
    | known here => exact known
    | fresh none room => exact update
  | unnumbered absent => exact known
  | half absent room => exact update

def NumberHalt (s : Store) (ords : Ordinals) (ids : Reverse) (id : Tuid) (depth : Nat) (e : Fault)
    (s' : Store) : Prop :=
  ∃ next a b, s' = { s with ordinalById := a, idByOrdinal := b, nextOrdinal := next } ∧
    ((∃ ords' ids', Numbering ords ids s.nextOrdinal id ords' ids' ∧
      IndexLeft e a ords' depth ∧ IndexLeft e b ids' depth) ∨ e = .panicked ∧ Exhausted s')

theorem ordinalFor_spec (ordinals : Indexed s.ordinalById ords depth)
    (reverse : Indexed s.idByOrdinal ids depth) (enough : depth ≤ fuel) (os : PageSize) (id : Tuid) :
    Spec (Store.ordinalFor os fuel id) s
      (fun ord s' => ∃ ords' ids' next a b,
        s' = { s with ordinalById := a, idByOrdinal := b, nextOrdinal := next } ∧
        Numbered ords ids s.nextOrdinal id ord ords' ids' next ∧ Indexed a ords' (depth + 1) ∧
        Indexed b ids' (depth + 1))
      (NumberHalt s ords ids id (depth + 1)) := by
  have later := reverse.deeper (Nat.le_succ depth)
  refine spec_view_bind ?_
  rw [ordinals.get enough]
  refine spec_pure_bind ?_
  cases found : ords id with
  | some ord =>
    exact spec_pure ⟨ords, ids, s.nextOrdinal, s.ordinalById, s.idByOrdinal, rfl, .known found,
      ordinals.deeper (Nat.le_succ _), later⟩
  | none =>
    dsimp only
    split
    next full =>
      exact spec_fail ⟨s.nextOrdinal, s.ordinalById, s.idByOrdinal, rfl,
        .inr ⟨rfl, .inr (.inr (.inr full))⟩⟩ (by simp)
    next room =>
      refine spec_update_bind ?_
      have first : Spec (Store.onOrdinalById (BTree.insert os fuel id (⟨s.nextOrdinal⟩ : Ordinal)))
          { s with nextOrdinal := s.nextOrdinal + 1 }
          (fun _ s' => ∃ a, s' = { s with ordinalById := a, nextOrdinal := s.nextOrdinal + 1 } ∧
            Indexed a (Function.update ords id (some ⟨s.nextOrdinal⟩)) (depth + 1))
          (NumberHalt s ords ids id (depth + 1)) := by
        refine spec_focus (spec_weaken (ordinals.insert enough os id ⟨s.nextOrdinal⟩) ?_ ?_)
        · exact fun _ a indexed => ⟨a, rfl, indexed⟩
        · rintro e a ((before | after) | ⟨panic, full⟩)
          · exact ⟨_, a, _, rfl, .inl ⟨ords, ids, .unnumbered found, before, later.left before.outside⟩⟩
          · exact ⟨_, a, _, rfl, .inl ⟨_, ids, .half found room, after, later.left after.outside⟩⟩
          · exact ⟨_, a, _, rfl, .inr ⟨panic, .inr (.inl full)⟩⟩
      refine spec_bind first ?_
      rintro - _ ⟨a, rfl, indexed⟩
      have second : Spec (Store.onIdByOrdinal (BTree.insert os fuel (⟨s.nextOrdinal⟩ : Ordinal) id))
          { s with ordinalById := a, nextOrdinal := s.nextOrdinal + 1 }
          (fun _ s' => ∃ b,
            s' = { s with ordinalById := a, idByOrdinal := b, nextOrdinal := s.nextOrdinal + 1 } ∧
            Indexed b (Function.update ids ⟨s.nextOrdinal⟩ (some id)) (depth + 1))
          (NumberHalt s ords ids id (depth + 1)) := by
        refine spec_focus (spec_weaken (reverse.insert enough os ⟨s.nextOrdinal⟩ id) ?_ ?_)
        · exact fun _ b indexed => ⟨b, rfl, indexed⟩
        · rintro e b ((before | after) | ⟨panic, full⟩)
          · exact ⟨_, a, b, rfl, .inl ⟨_, ids, .half found room, indexed.left before.outside, before⟩⟩
          · exact ⟨_, a, b, rfl, .inl ⟨_, _, .whole (.fresh found room), indexed.left after.outside, after⟩⟩
          · exact ⟨_, a, b, rfl, .inr ⟨panic, .inr (.inr (.inl full))⟩⟩
      refine spec_bind second ?_
      rintro - _ ⟨b, rfl, indexed'⟩
      exact spec_pure ⟨_, _, _, a, b, rfl, .fresh found room, indexed, indexed'⟩

theorem Numbering.start (ords : Ordinals) (ids : Reverse) (next : UInt32) (id : Tuid) :
    Numbering ords ids next id ords ids := by
  cases found : ords id with
  | none => exact .unnumbered found
  | some ord => exact .whole (.known found)

end Numbers

section Release

-- The store without the index entries of the old version.
def deindexed (s : Store) (old : Option Entity) (ord : Ordinal) : Store :=
  match old with
  | none => s
  | some e => s.deindexHeader e.1 ord

theorem deindexed_files (s : Store) (old : Option Entity) (ord : Ordinal) :
    ∃ k r n, deindexed s old ord = { s with byKind := k, bySchemaRef := r, entityTypeByName := n } := by
  cases old with
  | none => exact ⟨_, _, _, rfl⟩
  | some e => exact ⟨_, _, _, rfl⟩

-- releaseOld until the sync of the bitmap; it frees a slot or not.
def Store.clearOld (fuel : Nat) (id : Tuid) (ord : Ordinal) : Gems.Prog Store Bool := do
  let s ← view
  match ← ofResult (BTree.get SlotPointer fuel s.primary id) with
  | none => pure false
  | some oldPtr =>
    let (oldHeader, _) ← ofResult (s.readAt oldPtr)
    update fun s => s.deindexHeader oldHeader ord
    Store.onData (ExtentManager.clear oldPtr)
    pure true

def Store.syncOld : Bool → Gems.Prog Store Unit
  | true => Store.onData (ExtentManager.onFile ExtentFile.syncRange)
  | false => pure ()

theorem onData_bind {A B : Type} (m : Gems.Prog ExtentManager A) (f : A → Gems.Prog ExtentManager B) :
    Store.onData (m >>= f) = Store.onData m >>= fun a => Store.onData (f a) := by
  have get : ∀ (s : Store) (data : ExtentManager), { s with data }.data = data := fun _ _ => rfl
  have set : ∀ (s : Store) (data data' : ExtentManager),
      { { s with data } with data := data' } = { s with data := data' } := fun _ _ _ => rfl
  exact focus_bind get set m f

theorem releaseOld_eq (fuel : Nat) (id : Tuid) (ord : Ordinal) :
    Store.releaseOld fuel id ord = Store.clearOld fuel id ord >>= Store.syncOld := by
  simp only [Store.releaseOld, Store.clearOld, bind_assoc]
  congr 1
  funext s
  congr 1
  funext found
  cases found with
  | none => rfl
  | some oldPtr => simp only [free_eq, onData_bind, bind_assoc, pure_bind, Store.syncOld]

variable {live : Set SlotPointer}

theorem clearOld_spec (primary : Indexed s.primary slots depth) (held : Held os s.data live)
    (contents : Contents s.data.file.bytes slots map) (marked : slotSet slots ⊆ live)
    (enough : depth ≤ fuel) (id : Tuid) (ord : Ordinal) :
    Spec (Store.clearOld fuel id ord) s
      (fun freed s' => (freed = true → slots id ≠ none) ∧ ∃ data, s' = { deindexed s (map id) ord with data } ∧
        Held os data (live \ {q | slots id = some q}) ∧ data.extents = s.data.extents ∧
        data.fileId = s.data.fileId ∧
        ∀ i, Payload s.data.extents.length i → data.file.bytes i = s.data.file.bytes i)
      (fun e s' => e = .stopped ∧ s' = deindexed s (map id) ord) := by
  refine spec_view_bind ?_
  rw [primary.get enough]
  refine spec_pure_bind ?_
  cases found : slots id with
  | none =>
    rw [contents.absent id found]
    have none : live \ {q | (Option.none : Option SlotPointer) = some q} = live := by simp
    rw [none]
    exact spec_pure ⟨by simp, s.data, rfl, held, rfl, rfl, fun _ _ => rfl⟩
  | some old =>
    obtain ⟨e, known, read⟩ := contents.readAt held marked found
    rw [known]
    dsimp only
    rw [read]
    refine spec_pure_bind (spec_update_bind ?_)
    have only : {q | some old = some q} = {old} := by
      ext q
      simp [eq_comm]
    rw [only]
    have cleared : Spec (Store.onData (ExtentManager.clear old)) (s.deindexHeader e.1 ord)
        (fun _ s' => ∃ data, s' = { s.deindexHeader e.1 ord with data } ∧ Cleared os s.data live old data)
        (fun e' s' => e' = .stopped ∧ s' = s.deindexHeader e.1 ord) := by
      refine spec_focus (spec_weaken (held.clear (marked ⟨id, found⟩)) ?_ ?_)
      · exact fun _ data cleared => ⟨data, rfl, cleared⟩
      · rintro e data ⟨stop, rfl⟩
        exact ⟨stop, rfl⟩
    refine spec_bind cleared ?_
    rintro - _ ⟨data, rfl, cleared⟩
    exact spec_pure ⟨fun _ => by simp, data, rfl, cleared.held, cleared.extents, cleared.file, cleared.same⟩

end Release

end Gems.Engine
