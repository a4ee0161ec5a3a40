import Gems.Engine.Refine

set_option autoImplicit false

namespace Gems.Engine

open Lib Prog Catalog Index Storage

variable {os : PageSize} {s s' : Store} {slots slots' : Slots} {ords ords' : Ordinals} {ids ids' : Reverse}
  {map map' : Entities} {depth depth' fuel n : Nat} {limit : Limit} {id : Tuid} {ord : Ordinal} {next : UInt32}
  {p : SlotPointer} {header : EntityHeader} {body : List UInt8} {e : Fault}

section Listing

-- ordinal_for until id_by_ordinal leads to the new id; a known id is there already.
def Store.numberUntilListed (os : PageSize) (fuel : Nat) (id : Tuid) : Gems.Prog Store (Ordinal × Option Nat) := do
  let s ← view
  match ← ofResult (BTree.get Ordinal fuel s.ordinalById id) with
  | some existing => pure (existing, none)
  | none =>
    let ord : Ordinal := ⟨s.nextOrdinal⟩
    if s.nextOrdinal.toNat + 1 = 2 ^ 32 then fail .panicked
    else do
      update fun s => { s with nextOrdinal := s.nextOrdinal + 1 }
      Store.onOrdinalById (BTree.insert os fuel id ord)
      let base ← Store.onIdByOrdinal (BTree.untilRoot os fuel ord id)
      pure (ord, some base)

def Store.finishListing (os : PageSize) : Option Nat → Gems.Prog Store Unit
  | some base => Store.onIdByOrdinal (BTree.afterRoot os base)
  | none => pure ()

def Store.untilListed (os : PageSize) (fuel : Nat) (header : EntityHeader) (body : List UInt8) :
    Gems.Prog Store (SlotPointer × Ordinal × Option Nat) := do
  let ptr ← Store.onData (ExtentManager.allocate os ((Store.placed header body).encode ++ body).length)
  Store.onData (ExtentManager.writeSlot ptr ((Store.placed header body).encode ++ body))
  let (ord, base) ← Store.numberUntilListed os fuel header.id
  pure (ptr, ord, base)

def Store.afterListed (os : PageSize) (fuel : Nat) (header : EntityHeader)
    (listed : SlotPointer × Ordinal × Option Nat) : Gems.Prog Store (SlotPointer × Ordinal × Bool) := do
  Store.finishListing os listed.2.2
  let freed ← Store.clearOld fuel header.id listed.2.1
  pure (listed.1, listed.2.1, freed)

theorem onIdByOrdinal_bind {A B : Type} (m : Gems.Prog BTree A) (f : A → Gems.Prog BTree B) :
    Store.onIdByOrdinal (m >>= f) = Store.onIdByOrdinal m >>= fun a => Store.onIdByOrdinal (f a) := by
  have get : ∀ (s : Store) (idByOrdinal : BTree), { s with idByOrdinal }.idByOrdinal = idByOrdinal :=
    fun _ _ => rfl
  have set : ∀ (s : Store) (idByOrdinal idByOrdinal' : BTree),
      { { s with idByOrdinal } with idByOrdinal := idByOrdinal' } = { s with idByOrdinal := idByOrdinal' } :=
    fun _ _ _ => rfl
  exact focus_bind get set m f

theorem ordinalFor_eq (os : PageSize) (fuel : Nat) (id : Tuid) :
    Store.ordinalFor os fuel id = Store.numberUntilListed os fuel id >>= fun listed =>
      Store.finishListing os listed.2 >>= fun _ => pure listed.1 := by
  simp only [Store.ordinalFor, Store.numberUntilListed, bind_assoc]
  congr 1
  funext s
  congr 1
  funext found
  cases found with
  | some existing => rfl
  | none =>
    dsimp only
    split
    next => rfl
    next => simp only [bind_assoc, pure_bind, Index.insert_eq, onIdByOrdinal_bind, Store.finishListing]

theorem untilCleared_eq (os : PageSize) (fuel : Nat) (header : EntityHeader) (body : List UInt8) :
    Store.untilCleared os fuel header body =
      Store.untilListed os fuel header body >>= Store.afterListed os fuel header := by
  simp only [Store.untilCleared, Store.untilListed, Store.afterListed, ordinalFor_eq, bind_assoc, pure_bind]

theorem numberUntilListed_spec (ordinals : Indexed s.ordinalById ords depth)
    (reverse : Indexed s.idByOrdinal ids depth) (enough : depth ≤ fuel) (os : PageSize) (id : Tuid) :
    Spec (Store.numberUntilListed os fuel id) s (fun _ _ => True)
      (fun e s' => e.Outside → OnFile s'.idByOrdinal ids (depth + 1)) := by
  have later := reverse.deeper (Nat.le_succ depth)
  refine spec_view_bind ?_
  rw [ordinals.get enough]
  refine spec_pure_bind ?_
  cases found : ords id with
  | some ord => exact spec_pure trivial
  | none =>
    dsimp only
    split
    next full => exact spec_fail (fun outside => by rcases outside with no | no <;> cases no) (by simp)
    next room =>
      refine spec_update_bind ?_
      have first : Spec (Store.onOrdinalById (BTree.insert os fuel id (⟨s.nextOrdinal⟩ : Ordinal)))
          { s with nextOrdinal := s.nextOrdinal + 1 } (fun _ s' => s'.idByOrdinal = s.idByOrdinal)
          (fun e s' => e.Outside → OnFile s'.idByOrdinal ids (depth + 1)) := by
        refine spec_focus (spec_weaken (ordinals.insert enough os id ⟨s.nextOrdinal⟩) ?_ ?_)
        · exact fun _ _ _ => rfl
        · exact fun _ _ _ _ => later.onFile
      refine spec_bind first ?_
      rintro - t same
      have second : Spec (Store.onIdByOrdinal (BTree.untilRoot os fuel (⟨s.nextOrdinal⟩ : Ordinal) id)) t
          (fun _ _ => True) (fun e s' => e.Outside → OnFile s'.idByOrdinal ids (depth + 1)) := by
        rw [← same] at reverse
        refine spec_focus (spec_weaken (reverse.insert_halves enough os ⟨s.nextOrdinal⟩ id) ?_ ?_)
        · exact fun _ _ _ => trivial
        · rintro e b (before | ⟨rfl, -⟩) outside
          · exact before.onFile
          · rcases outside with no | no <;> cases no
      exact spec_bind second fun _ _ _ => spec_pure trivial

theorem untilListed_spec (sound : Sound os s slots ords ids map depth) (enough : depth ≤ fuel)
    (level : Grows s.data (encodedLen + body.length) → Level s.data)
    (listed : Grows s.data (encodedLen + body.length) → limit ≠ .refuse 1) :
    SpecAt limit (Store.untilListed os fuel header body) s (fun _ _ => True)
      (fun e s' => e.Outside → OnFile s'.idByOrdinal ids (depth + 1)) := by
  have later := (sound.idByOrdinal.deeper (Nat.le_succ depth)).onFile
  rcases BlockClass.forSize_spec (encodedLen + body.length) with ⟨c, class_, fits⟩ | ⟨large, error, none⟩
  · refine place_spec sound class_ fits (fun full => level ⟨c, class_, full⟩)
      (fun full => listed ⟨c, class_, full⟩) ?_ ?_
    · exact fun _ _ _ _ _ _ => later
    · intro p d placed count
      exact spec_bind (numberUntilListed_spec (s := { s with data := d }) sound.ordinalById sound.idByOrdinal
        enough os header.id) fun _ _ _ => spec_pure trivial
  · have stuck : Spec (Store.onData
        (ExtentManager.allocate os ((Store.placed header body).encode ++ body).length)) s
        (fun _ _ => False) (fun e s' => e.Outside → OnFile s'.idByOrdinal ids (depth + 1)) := by
      rw [length_blob]
      refine spec_focus (spec_weaken (allocate_error os s.data none) (fun _ _ no => no.elim) ?_)
      rintro e d ⟨rfl, -⟩ outside
      rcases outside with no | no <;> cases no
    exact specAt_bind (stuck limit) fun _ _ no => no.elim

theorem OnFile.unique {K V : Type} [LinearOrder K] [FixedCodec K] [FixedCodec V] {t : BTree}
    {map map' : K → Option V} (caps : Capacities K V defaultIndexPageSize.toNat) (file : OnFile t map depth)
    (file' : OnFile t map' depth) : map = map' := by
  obtain ⟨t₁, opened, indexed⟩ := file.open fourKiB caps
  obtain ⟨t₂, opened', indexed'⟩ := file'.open fourKiB caps
  obtain rfl : t₁ = t₂ := Except.ok.inj (opened.symm.trans opened')
  funext key
  exact Except.ok.inj ((indexed.get le_rfl key).symm.trans (indexed'.get le_rfl key))

end Listing

section Cut

-- How far an insertion gets before it is cut short: id_by_ordinal leads to a new id, the old slot is marked free,
-- the primary index leads to the new slot.
def Store.Listed (os : PageSize) (fuel : Nat) (limit : Limit) (header : EntityHeader) (body : List UInt8) (s : Store) :
    Prop :=
  ∃ listed, ((Store.untilListed os fuel header body).runWith limit s).1 = .ok listed

def Store.Released (os : PageSize) (fuel : Nat) (limit : Limit) (header : EntityHeader) (body : List UInt8)
    (s : Store) : Prop :=
  ∃ new, ((Store.untilCleared os fuel header body).runWith limit s).1 = .ok new

def Store.Published (os : PageSize) (fuel : Nat) (limit : Limit) (header : EntityHeader) (body : List UInt8)
    (s : Store) : Prop :=
  ∃ base, ((Store.untilPublished os fuel header body).runWith limit s).1 = .ok base

/-- What an insertion has done that was cut short, and not between the release of the old slot and the new root. -/
inductive InsertCut (os : PageSize) (fuel : Nat) (limit : Limit) (s : Store) (slots : Slots) (ords : Ordinals)
    (ids : Reverse) (map : Entities) (depth : Nat) (header : EntityHeader) (body : List UInt8) :
    Fault → Store → Prop where
  | large {error : Error} (large : maxBlockSize < encodedLen + body.length) :
    InsertCut os fuel limit s slots ords ids map depth header body (.raised error) s
  | panicked {s' : Store} (exhausted : Exhausted s') :
    InsertCut os fuel limit s slots ords ids map depth header body .panicked s'
  | old {f : Fault} {s' indexed : Store} (old : OldLeft os s slots ords ids map depth header body indexed f s')
    (unpublished : ¬ Store.Published os fuel limit header body s)
    (unlisted : ¬ Store.Listed os fuel limit header body s → OnFile s'.idByOrdinal ids depth)
    (unreleased : ¬ Store.Released os fuel limit header body s → indexed = s) :
    InsertCut os fuel limit s slots ords ids map depth header body f s'
  | new {f : Fault} {s' : Store} (published : Store.Published os fuel limit header body s)
    (new : NewLeft os s slots ords ids map depth header body f s') :
    InsertCut os fuel limit s slots ords ids map depth header body f s'

theorem insert_cut (sound : Sound os s slots ords ids map depth) (enough : depth ≤ fuel)
    (level : Grows s.data (encodedLen + body.length) → Level s.data)
    (limit : Limit) (listed : Grows s.data (encodedLen + body.length) → limit ≠ .refuse 1)
    (untorn : slots header.id ≠ none → Store.Released os fuel limit header body s →
      Store.Published os fuel limit header body s) :
    match (Store.insert os fuel header body).runWith limit s with
    | (.ok _, s') => Store.Published os fuel limit header body s ∧ ∃ p ord ords' ids',
      Inserted os s slots ords ids map (depth + 1) header body s' p ord ords' ids'
    | (.error e, s') => InsertCut os fuel limit s slots ords ids map (depth + 1) header body e s' ∧ limit.Allows e := by
  have parts : SpecAt limit (Store.untilPublished os fuel header body) s _ _ :=
    insert_parts sound enough level listed
  rw [insert_eq]
  by_cases published : Store.Published os fuel limit header body s
  · obtain ⟨base, made⟩ := published
    have ran := parts.runWith_second made
    cases made' : (Store.untilPublished os fuel header body >>= fun base =>
        Store.onPrimary (BTree.afterRoot os base)).runWith limit s with
    | mk result s' =>
      rw [made'] at ran
      cases result with
      | ok done => exact ⟨⟨base, made⟩, ran⟩
      | error e => exact ⟨.new ⟨base, made⟩ ran.1, ran.2⟩
  obtain ⟨e, s', stuck⟩ := runWith_stuck published
  rw [runWith_bind_error stuck]
  refine ⟨?_, (parts.runWith_error stuck).2⟩
  have unlisted (outside : e.Outside) (unlisted : ¬ Store.Listed os fuel limit header body s) :
      OnFile s'.idByOrdinal ids (depth + 1) := by
    obtain ⟨e', t, stuck'⟩ := runWith_stuck unlisted
    have same : (Store.untilPublished os fuel header body).runWith limit s = (.error e', t) := by
      rw [Store.untilPublished, untilCleared_eq]
      exact runWith_bind_error (runWith_bind_error stuck')
    obtain ⟨rfl, rfl⟩ : e = e' ∧ s' = t := by simpa [stuck] using same
    exact ((untilListed_spec sound enough level listed).runWith_error stuck').1 outside
  have ended (halt : ClearHalt os s slots ords ids map (depth + 1) header body e s') :
      InsertCut os fuel limit s slots ords ids map (depth + 1) header body e s' := by
    rcases halt with ⟨large, ⟨error, rfl⟩, rfl⟩ | ⟨rfl, exhausted⟩ | old
    · exact .large large
    · exact .panicked exhausted
    · exact .old old published (unlisted old.outside) fun _ => rfl
  by_cases released : Store.Released os fuel limit header body s
  · have absent : slots header.id = none := by
      by_contra present
      exact published (untorn present released)
    rcases (parts.runWith_error stuck).1 with halt | ⟨rfl, exhausted⟩ | ⟨indexed, -, old⟩ | ⟨present, -⟩
    · exact ended halt
    · exact .panicked exhausted
    · exact .old old published (unlisted old.outside) fun no => absurd released no
    · exact absurd absent present
  · obtain ⟨e', t, stuck'⟩ := runWith_stuck released
    have same : (Store.untilPublished os fuel header body).runWith limit s = (.error e', t) :=
      runWith_bind_error stuck'
    obtain ⟨rfl, rfl⟩ : e = e' ∧ s' = t := by simpa [stuck] using same
    exact ended ((untilCleared_spec sound enough level listed).runWith_error stuck').1

-- A deletion gets as far as to the primary index without the id.
def Store.Erased (os : PageSize) (fuel : Nat) (limit : Limit) (id : Tuid) (s : Store) : Prop :=
  ∃ erased, ((Store.onPrimary (BTree.untilErased SlotPointer os fuel id)).runWith limit s).1 = .ok erased

-- As far as to the bitmap indexes without it.
def Store.Retired (os : PageSize) (fuel : Nat) (limit : Limit) (id : Tuid) (s : Store) : Prop :=
  ∃ retired, ((Store.untilRetired os fuel id).runWith limit s).1 = .ok retired

theorem untilRetired_eq (os : PageSize) (fuel : Nat) (id : Tuid) :
    ∃ rest : Option SlotPointer × Option Nat → Gems.Prog Store (Option SlotPointer), Store.untilRetired os fuel id =
      Store.onPrimary (BTree.untilErased SlotPointer os fuel id) >>= rest := by
  rw [Store.untilRetired, Index.delete_eq, onPrimary_bind, bind_assoc]
  exact ⟨_, rfl⟩

/-- What a deletion has done that was cut short. -/
inductive DeleteCut (os : PageSize) (fuel : Nat) (limit : Limit) (s : Store) (slots : Slots) (ords : Ordinals)
    (ids : Reverse) (map : Entities) (depth : Nat) (id : Tuid) : Fault → Store → Prop where
  | panicked {s' : Store} (exhausted : Exhausted s') :
      DeleteCut os fuel limit s slots ords ids map depth id .panicked s'
  | kept {f : Fault} {s' : Store}
    (kept : StoreLeft os s slots ords ids map depth s.data.extents.length f s') :
    DeleteCut os fuel limit s slots ords ids map depth id f s'
  | erased {f : Fault} {s' : Store} (erased : Store.Erased os fuel limit id s)
    (left : ErasedLeft os s slots ords ids map depth id f s')
    (unretired : f = .refused → ¬ Store.Retired os fuel limit id s) :
    DeleteCut os fuel limit s slots ords ids map depth id f s'
  | deleted {ord : Ordinal} {s' : Store} (erased : Store.Erased os fuel limit id s)
    (deleted : Deleted os s slots ords ids map depth id ord s') :
    DeleteCut os fuel limit s slots ords ids map depth id .refused s'

theorem delete_unerased (sound : Sound os s slots ords ids map depth) (enough : depth ≤ fuel)
    (unerased : ¬ Store.Erased os fuel limit id s) :
    match (Store.delete os fuel id).runWith limit s with
    | (.ok _, _) => False
    | (.error e, s') => ((e = .panicked ∧ Exhausted s') ∨
      StoreLeft os s slots ords ids map depth s.data.extents.length e s') ∧ limit.Allows e := by
  obtain ⟨e, s', stuck⟩ := runWith_stuck unerased
  obtain ⟨rest, same⟩ := untilRetired_eq os fuel id
  have ended : (Store.untilRetired os fuel id).runWith limit s = (.error e, s') := by
    rw [same]
    exact runWith_bind_error stuck
  have early : Spec (Store.onPrimary (BTree.untilErased SlotPointer os fuel id)) s (fun _ _ => True)
      (fun e s' => e.Outside → OnFile s'.primary slots depth) := by
    refine spec_focus (spec_weaken (sound.primary.untilErased enough os id) (fun _ _ _ => trivial) ?_)
    rintro e t (kept | ⟨rfl, -⟩) outside
    · exact kept.onFile
    · rcases outside with no | no <;> cases no
  rw [delete_eq, runWith_bind_error ended]
  have parts : Spec (Store.untilRetired os fuel id) s _ _ := delete_parts sound enough id
  refine ⟨?_, (parts.runWith_error ended).2⟩
  rcases (parts.runWith_error ended).1 with panic | kept | ⟨ord, ords', ids', present, -, -, gone⟩
  · exact .inl panic
  · exact .inr kept
  · have kept := (early.runWith_error stuck).1 gone.outside
    have erased := gone.primary.onFile.unique primary_caps kept
    refine absurd ?_ present
    rw [← erased, Function.update_self]

theorem delete_cut (sound : Sound os s slots ords ids map depth) (enough : depth ≤ fuel) (id : Tuid)
    (limit : Limit) :
    match (Store.delete os fuel id).runWith limit s with
    | (.ok removed, s') => (removed = false ∧ Missing os s slots ords ids map depth id s') ∨
      (removed = true ∧ Store.Erased os fuel limit id s ∧ ∃ ord, Deleted os s slots ords ids map depth id ord s')
    | (.error e, s') => DeleteCut os fuel limit s slots ords ids map depth id e s' ∧ limit.Allows e := by
  by_cases erased : Store.Erased os fuel limit id s
  swap
  · have ran := delete_unerased sound enough erased
    cases made : (Store.delete os fuel id).runWith limit s with
    | mk result s' =>
      rw [made] at ran
      cases result with
      | ok removed => exact ran.elim
      | error e =>
        refine ⟨?_, ran.2⟩
        rcases ran.1 with ⟨rfl, exhausted⟩ | kept
        · exact .panicked exhausted
        · exact .kept kept
  have parts : Spec (Store.untilRetired os fuel id) s _ _ := delete_parts sound enough id
  rw [delete_eq]
  by_cases retired : Store.Retired os fuel limit id s
  · obtain ⟨found, made⟩ := retired
    have ran := parts.runWith_second made
    cases made' : (Store.untilRetired os fuel id >>= Store.freeRetired).runWith limit s with
    | mk result s' =>
      rw [made'] at ran
      cases result with
      | ok removed => exact ran.imp_right fun ⟨yes, deleted⟩ => ⟨yes, erased, deleted⟩
      | error e =>
        obtain ⟨halt, allows⟩ := ran
        refine ⟨?_, allows⟩
        rcases halt with ⟨rfl, left⟩ | ⟨rfl, ord, deleted⟩
        · exact .erased erased left fun no => by cases no
        · exact .deleted erased deleted
  · obtain ⟨e, s', stuck⟩ := runWith_stuck retired
    rw [runWith_bind_error stuck]
    refine ⟨?_, (parts.runWith_error stuck).2⟩
    rcases (parts.runWith_error stuck).1 with ⟨rfl, exhausted⟩ | kept | left
    · exact .panicked exhausted
    · exact .kept kept
    · exact .erased erased left fun _ => retired

end Cut

end Gems.Engine
