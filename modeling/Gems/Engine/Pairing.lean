import Gems.Engine.History

set_option autoImplicit false

namespace Gems.Engine

open Lib Prog Catalog Index Storage

variable {os : PageSize} {s s' : Store} {slots slots' : Slots} {ords ords' : Ordinals} {ids ids' : Reverse}
  {map map' raw : Entities} {depth depth' fuel n : Nat} {limit : Limit}
  {id other : Tuid} {ord : Ordinal} {next : UInt32}
  {header : EntityHeader} {body : List UInt8} {call : Call} {event : Event}

section Obstacles

def Store.Spare (fuel : Nat) (s : Store) (id : Tuid) : Prop :=
  BTree.get Ordinal fuel s.ordinalById id = .ok none → ∀ other : Tuid,
    BTree.get SlotPointer fuel s.primary other ≠ .ok none →
    BTree.get Ordinal fuel s.ordinalById other ≠ .ok (some ⟨s.nextOrdinal⟩)

/-- The ordinal trees hold nothing of an absent id, or a pair of entries. -/
structure Store.Unclaimed (fuel : Nat) (s : Store) (id : Tuid) : Prop where
  known : ∀ ord, BTree.get Ordinal fuel s.ordinalById id = .ok (some ord) →
    ∀ o : Ordinal, BTree.get Tuid fuel s.idByOrdinal o = .ok (some id) ↔ o = ord
  unlisted : BTree.get Ordinal fuel s.ordinalById id = .ok none →
    ∀ o : Ordinal, BTree.get Tuid fuel s.idByOrdinal o = .ok (some id) → o = ⟨s.nextOrdinal⟩
  spare : s.Spare fuel id

-- An insertion of an absent id that is cut short does not meet what an earlier call left in the ordinal trees.
def Call.Clear (os : PageSize) (fuel : Nat) (limit : Limit) : Call → Store → Prop
  | .insert header body, s => BTree.get SlotPointer fuel s.primary header.id = .ok none →
    (Store.Listed os fuel limit header body s → s.Spare fuel header.id) ∧
      (Store.Published os fuel limit header body s → s.Unclaimed fuel header.id)
  | _, _ => True

-- A call that fails does not end between the change of the bitmap indexes and that of the primary index.
def Call.Atomic (os : PageSize) (fuel : Nat) (limit : Limit) : Call → Store → Prop
  | .insert header body, s =>
    Store.Released os fuel limit header body s → Store.Published os fuel limit header body s
  | .delete id, s => Store.Erased os fuel limit id s → Store.Retired os fuel limit id s
  | .reopen, _ => True

def Event.Unobstructed (os : PageSize) (fuel : Nat) : Event → Store → Prop
  | .call (.insert header body), s => BTree.get SlotPointer fuel s.primary header.id = .ok none → Fits body →
    s.Unclaimed fuel header.id
  | .call _, _ => True
  | .stopped call writes, s => call.Clear os fuel (.stop writes) s
  | .failing call requests, s => call.Clear os fuel (.refuse requests) s ∧ call.Atomic os fuel (.refuse requests) s

theorem Sound.free_of_spare (sound : Sound os s slots ords ids map depth) (enough : depth ≤ fuel)
    (spare : s.Spare fuel id) (none : ords id = none) (other : Tuid) (present : slots other ≠ Option.none) :
    ords other ≠ some ⟨s.nextOrdinal⟩ := by
  have clear := spare (by rw [sound.ordinalById.get enough, none]) other
    (by rwa [sound.primary.get enough, ne_eq, Except.ok.injEq])
  rwa [sound.ordinalById.get enough, ne_eq, Except.ok.injEq] at clear

theorem Sound.ready (sound : Sound os s slots ords ids map depth) (enough : depth ≤ fuel)
    (unclaimed : s.Unclaimed fuel id) : Ready s.nextOrdinal slots ords ids id where
  known ord here o := by
    have pair := unclaimed.known ord (by rw [sound.ordinalById.get enough, here]) o
    rwa [sound.idByOrdinal.get enough, Except.ok.injEq] at pair
  unlisted none o there := by
    refine unclaimed.unlisted ?_ o ?_
    · rw [sound.ordinalById.get enough, none]
    · rw [sound.idByOrdinal.get enough, there]
  free := sound.free_of_spare enough unclaimed.spare

theorem Numbering.others (numbering : Numbering ords ids next id ords' ids') (apart : other ≠ id) :
    ords' other = ords other := by
  cases numbering with
  | whole numbered => exact numbered.others apart
  | unnumbered absent => rfl
  | half absent room => exact Function.update_of_ne apart _ _

theorem Numbering.reverse (numbering : Numbering ords ids next id ords' ids') :
    ids' = ids ∨ ords id = none ∧ ids' = Function.update ids ⟨next⟩ (some id) := by
  cases numbering with
  | whole numbered =>
    cases numbered with
    | known here => exact .inl rfl
    | fresh none room => exact .inr ⟨none, rfl⟩
  | unnumbered absent => exact .inl rfl
  | half absent room => exact .inl rfl

theorem Numbering.again (numbering : Numbering ords ids next id ords' ids') (known : ords id ≠ none) :
    ords' = ords := by
  cases numbering with
  | whole numbered => exact (numbered.again known).2.1
  | unnumbered absent => exact absurd absent known
  | half absent room => exact absurd absent known

-- An insertion that was not published takes no ordinal from a present id.
theorem Numbering.pairs (numbering : Numbering ords ids next id ords' ids') (pairs : Pairs slots ords ids)
    (known : slots id ≠ none → ords id ≠ none)
    (free : ids' ≠ ids → ∀ other, slots other ≠ none → ords other ≠ some ⟨next⟩) : Pairs slots ords' ids' := by
  intro other present o
  have same : ords' other = ords other := by
    by_cases here : other = id
    · subst here
      rw [numbering.again (known present)]
    · exact numbering.others here
  rw [same, pairs other present o]
  by_cases kept : ids' = ids
  · rw [kept]
  obtain ⟨none, rfl⟩ := numbering.reverse.resolve_left kept
  have apart : id ≠ other := by
    rintro rfl
    exact known present none
  by_cases first : o = ⟨next⟩
  · subst first
    rw [Function.update_self, Option.some.injEq, ← pairs other present]
    exact iff_of_false (free kept other present) apart
  · rw [Function.update_of_ne first]

theorem Retiring.pairs (retiring : Retiring ords ids id ord ords' ids') (pairs : Pairs slots ords ids)
    (here : ords id = some ord) (present : slots id ≠ none) : Pairs (Function.update slots id none) ords' ids' := by
  have apart {other : Tuid} (present' : Function.update slots id none other ≠ none) :
      other ≠ id ∧ slots other ≠ none := by
    have apart : other ≠ id := by
      rintro rfl
      rw [Function.update_self] at present'
      exact present' rfl
    rw [Function.update_of_ne apart] at present'
    exact ⟨apart, present'⟩
  cases retiring with
  | kept => exact fun other present' => pairs other (apart present').2
  | half =>
    intro other present' o
    obtain ⟨apart, there⟩ := apart present'
    rw [Function.update_of_ne apart]
    exact pairs other there o
  | retired => exact pairs.deleted here present

end Obstacles

section Keeping

theorem Numbering.linked (numbering : Numbering ords ids s.nextOrdinal header.id ords' ids')
    (linked : Linked os s slots ords ids map depth) (enough : depth ≤ fuel)
    (clear : (Call.insert header body).Clear os fuel limit s)
    (unlisted : ¬ Store.Listed os fuel limit header body s → ids' = ids) : Pairs slots ords' ids' := by
  obtain ⟨sound, pairs⟩ := linked
  refine numbering.pairs pairs (sound.known header.id) fun moved => ?_
  have none := (numbering.reverse.resolve_left moved).1
  have absent : slots header.id = Option.none := by
    by_contra present
    exact sound.known header.id present none
  have spare := (clear (by rw [sound.primary.get enough, absent])).1 (by_contra fun no => moved (unlisted no))
  exact sound.free_of_spare enough spare none

theorem Sound.clear (sound : Sound os s slots ords ids map depth) (enough : depth ≤ fuel)
    (clear : (Call.insert header body).Clear os fuel limit s) (here : Store.Published os fuel limit header body s)
    (absent : slots header.id = none) : Ready s.nextOrdinal slots ords ids header.id :=
  sound.ready enough ((clear (by rw [sound.primary.get enough, absent])).2 here)

theorem Halved.pairs (halved : Halved os fuel limit s slots ords ids map call slots' ords' ids' map')
    (linked : Linked os s slots ords ids map depth) (enough : depth ≤ fuel) (clear : call.Clear os fuel limit s) :
    Pairs slots' ords' ids' := by
  have sound := linked.sound
  cases halved with
  | idle call => exact linked.pairs
  | unpublished numbering unlisted => exact numbering.linked linked enough clear unlisted
  | published fits here numbered =>
    exact numbered.pairs linked.pairs (sound.clear enough clear here) (sound.known _)
  | retiring present erased here retiring => exact retiring.pairs linked.pairs here present

theorem Filed.renumbered (filed : Filed s ords map) (indexes : SameIndexes s' s)
    (same : ∀ id, map id ≠ none → ords' id = ords id) : Filed s' ords' map where
  byKind := indexes.byKind ▸ filed.byKind.renumbered same
  bySchemaRef := indexes.bySchemaRef ▸ filed.bySchemaRef.renumbered same

theorem Failed.pairs (failed : Failed os fuel limit s slots ords ids map depth' call s' slots' ords' ids' map')
    (linked : Linked os s slots ords ids map depth) (enough : depth ≤ fuel) (filed : Filed s ords map)
    (clear : call.Clear os fuel limit s) (atomic : call.Atomic os fuel limit s) :
    Pairs slots' ords' ids' ∧ Filed s' ords' map' := by
  have sound := linked.sound
  cases failed with
  | idle sound' indexes => exact ⟨linked.pairs, filed.renumbered indexes fun _ _ => rfl⟩
  | @unpublished header body _ indexed _ _ sound' numbering indexes unlisted unreleased here =>
    refine ⟨numbering.linked linked enough clear unlisted, ?_⟩
    obtain rfl := unreleased fun released => here (atomic released)
    refine filed.renumbered indexes fun id present => ?_
    by_cases own : id = header.id
    · subst own
      rw [numbering.again (sound.known _ ((sound.present_iff _).mpr present))]
    · exact numbering.others own
  | inserted here inserted =>
    exact ⟨(inserted.linked linked (sound.clear enough clear here)).pairs, inserted.filed linked filed⟩
  | retiring present erased unretired => exact absurd (atomic erased) unretired
  | deleted erased deleted => exact ⟨(deleted.linked linked).pairs, deleted.filed linked filed⟩

theorem Befell.pairs (befell : Befell os fuel s slots ords ids map depth event s' slots' ords' ids' map')
    (linked : Linked os s slots ords ids map depth) (enough : depth ≤ fuel) (filed : Filed s ords map)
    (clear : event.Unobstructed os fuel s) : Pairs slots' ords' ids' ∧ Filed s' ords' map' := by
  have sound := linked.sound
  cases befell with
  | stopped halved count reopened => exact ⟨halved.pairs linked enough clear, reopened.coherent.filed⟩
  | failed failed => exact failed.pairs linked enough filed clear.1 clear.2
  | called moved =>
    cases moved with
    | @inserted header body _ _ _ _ _ inserted =>
      have ready (absent : slots header.id = none) : Ready s.nextOrdinal slots ords ids header.id :=
        sound.ready enough (clear (by rw [sound.primary.get enough, absent]) inserted.small)
      exact ⟨(inserted.linked linked ready).pairs, inserted.filed linked filed⟩
    | refused large => exact ⟨linked.pairs, filed⟩
    | missing missing =>
      obtain ⟨t, rfl⟩ := missing.same
      exact ⟨linked.pairs, filed.byKind, filed.bySchemaRef⟩
    | deleted deleted => exact ⟨(deleted.linked linked).pairs, deleted.filed linked filed⟩
    | reopened reopened => exact ⟨linked.pairs, reopened.coherent.filed⟩

/-- For the ids in the primary index the ordinal trees are each other's inverse, and what the bitmap
indexes hold resolves to the entities that have the value. -/
structure Store.Paired (fuel : Nat) (s : Store) : Prop where
  numbered : ∀ id : Tuid, BTree.get SlotPointer fuel s.primary id ≠ .ok none →
    ∃ ord, BTree.get Ordinal fuel s.ordinalById id = .ok (some ord)
  inverse : ∀ id : Tuid, BTree.get SlotPointer fuel s.primary id ≠ .ok none → ∀ ord : Ordinal,
    BTree.get Ordinal fuel s.ordinalById id = .ok (some ord) ↔ BTree.get Tuid fuel s.idByOrdinal ord = .ok (some id)
  apart : ∀ (id id' : Tuid) (ord : Ordinal), BTree.get SlotPointer fuel s.primary id ≠ .ok none →
    BTree.get SlotPointer fuel s.primary id' ≠ .ok none →
    BTree.get Ordinal fuel s.ordinalById id = .ok (some ord) →
    BTree.get Ordinal fuel s.ordinalById id' = .ok (some ord) → id = id'
  byKind : ∀ kind, ∃ list, s.queryByKind fuel kind = .ok list ∧
    Names list fun id => ∃ e, s.get fuel id = .ok (some e) ∧ e.1.entityKind = kind
  bySchemaRef : ∀ typeId, ∃ list, s.queryBySchemaRef fuel typeId = .ok list ∧
    Names list fun id => ∃ e, s.get fuel id = .ok (some e) ∧ e.1.schemaRef = typeId

theorem Linked.paired (linked : Linked os s slots ords ids map depth) (enough : depth ≤ fuel)
    (filed : Filed s ords map) : s.Paired fuel := by
  have sound := linked.sound
  have pairs := linked.pairs
  have got (id : Tuid) (e : Entity) : s.get fuel id = .ok (some e) ↔ map id = some e := by
    rw [sound.get enough, Except.ok.injEq]
  constructor
  · intro id present
    rw [sound.primary.get enough, ne_eq, Except.ok.injEq] at present
    obtain ⟨ord, here⟩ := Option.ne_none_iff_exists'.mp (sound.known id present)
    exact ⟨ord, by rw [sound.ordinalById.get enough, here]⟩
  · intro id present ord
    rw [sound.primary.get enough, ne_eq, Except.ok.injEq] at present
    rw [sound.ordinalById.get enough, sound.idByOrdinal.get enough, Except.ok.injEq, Except.ok.injEq]
    exact pairs id present ord
  · intro id id' ord present present' here there
    rw [sound.primary.get enough, ne_eq, Except.ok.injEq] at present present'
    rw [sound.ordinalById.get enough, Except.ok.injEq] at here there
    exact (pairs.unique present present' here there).symm
  · intro kind
    simp only [got]
    exact linked.queryByKind enough filed.byKind kind
  · intro typeId
    simp only [got]
    exact linked.queryBySchemaRef enough filed.bySchemaRef typeId

end Keeping

section Runs

def PairedAfter (os : PageSize) (fuel : Nat) (events : List Event) (s : Store) : Prop :=
  Ended (runEvents os fuel events s) (Store.Paired fuel)

theorem ordinals_paired (created : Store.create os = .ok s) {events : List Event} (enough : events.length ≤ fuel)
    (steady : Throughout os fuel (fun event s => Steady os fuel event s ∧ event.Unobstructed os fuel s) events s) :
    PairedAfter os fuel events s := by
  have synced := (create_settled created).synced
  have keeps {s s' : Store} {slots slots' : Slots} {ords ords' : Ordinals} {ids ids' : Reverse}
      {map map' : Entities} {depth : Nat} {event : Event} (enough : depth < fuel)
      (clear : Steady os fuel event s ∧ event.Unobstructed os fuel s) (sound : Sound os s slots ords ids map depth)
      (paired : Pairs slots ords ids ∧ Filed s ords map)
      (befell : Befell os fuel s slots ords ids map depth event s' slots' ords' ids' map') :
      Pairs slots' ords' ids' ∧ Filed s' ords' map' :=
    befell.pairs ⟨sound, paired.1⟩ enough.le paired.2 clear.2
  have ran := runEvents_spec (fun s slots ords ids map => Pairs slots ords ids ∧ Filed s ords map)
    (fun _ _ here => here.1) keeps synced.sound ⟨synced.pairs, synced.coherent.filed⟩
    ((Nat.zero_add _).trans_le enough) steady
  refine ran.imp ?_
  rintro s' ⟨slots, ords, ids, raw, depth, shallow, sound, ⟨pairs, filed⟩, -⟩
  exact Linked.paired ⟨sound, pairs⟩ shallow filed

def firstHeader : EntityHeader := .new (.fromBytes []) (.fromBytes (1 :: List.replicate 23 0)) "a" .data .nil

def secondHeader : EntityHeader := .new (.fromBytes []) (.fromBytes (2 :: List.replicate 23 0)) "b" .data .nil

set_option maxRecDepth 100000 in
theorem ordinals_paired_stopped :
    ∃ s, Store.create fourKiB = .ok s ∧ PairedAfter fourKiB 4
      [.call (.insert firstHeader []), .failing (.delete firstHeader.id) 1, .stopped (.delete firstHeader.id) 3,
        .call .reopen] s := by
  have small : fourKiB.size ≤ 16384 := show 4096 ≤ 16384 by omega
  obtain ⟨s, created, start, none, -⟩ := create_sound fourKiB
  have unclaimed : s.Unclaimed 4 firstHeader.id :=
    { known := fun ord here => by
        rw [start.ordinalById.get (Nat.zero_le 4)] at here
        cases here
      unlisted := fun _ o there => by
        rw [start.idByOrdinal.get (Nat.zero_le 4)] at there
        cases there
      spare := fun _ other present => absurd (start.primary.get (Nat.zero_le 4) other) present }
  -- the deletion fails before the primary index is without the id
  have evaluated : endsIn fourKiB ((Event.call (.insert firstHeader [])).exec fourKiB 4) (fun s' =>
      !((Store.onPrimary (BTree.untilErased SlotPointer fourKiB 4 firstHeader.id)).runWith (.refuse 1) s').1.isOk) =
        true := by
    decide +kernel
  obtain ⟨_, s₁, inserted, unerased⟩ := endsIn_spec created evaluated
  have atomic : (Call.delete firstHeader.id).Atomic fourKiB 4 (.refuse 1) s₁ := by
    rintro ⟨erased, here⟩
    rw [here] at unerased
    cases unerased
  have untorn : Throughout fourKiB 4 (fun event s => event.Enlisted s ∧ event.Untorn fourKiB 4 s)
      [.call (.insert firstHeader []), .failing (.delete firstHeader.id) 1, .stopped (.delete firstHeader.id) 3,
        .call .reopen] s := by
    refine .cons ⟨trivial, trivial⟩ fun _ _ => .cons ⟨trivial, trivial⟩ fun _ _ => ?_
    exact .cons ⟨trivial, trivial⟩ fun _ _ => .cons ⟨trivial, trivial⟩ fun _ _ => trivial
  have clear : Throughout fourKiB 4 (Event.Unobstructed fourKiB 4)
      [.call (.insert firstHeader []), .failing (.delete firstHeader.id) 1, .stopped (.delete firstHeader.id) 3,
        .call .reopen] s := by
    refine .cons (fun _ _ => unclaimed) fun s' made => ?_
    obtain rfl : s₁ = s' := congrArg Prod.snd (inserted.symm.trans made)
    exact .cons ⟨trivial, atomic⟩ fun _ _ => .cons trivial fun _ _ => .cons trivial fun _ _ => trivial
  have steady := steady_of_short small start (by simp) (by simp [none]) untorn
  exact ⟨s, created, ordinals_paired created (by simp) (steady.and clear)⟩

-- The first entity's number is given away while its insertion waits for the second attempt.
set_option maxRecDepth 100000 in
theorem ordinals_shared :
    ∃ s, Store.create fourKiB = .ok s ∧ ¬ PairedAfter fourKiB 3
      [.stopped (.insert firstHeader []) 24, .call (.insert secondHeader []), .call (.insert firstHeader [])] s := by
  obtain ⟨s, created, -⟩ := create_sound fourKiB
  have evaluated : endsIn fourKiB
      (runEvents fourKiB 3 [.stopped (.insert firstHeader []) 24, .call (.insert secondHeader []),
        .call (.insert firstHeader [])])
      (fun s' => decide ((BTree.get SlotPointer 3 s'.primary firstHeader.id).toOption ≠ some none ∧
        (BTree.get SlotPointer 3 s'.primary secondHeader.id).toOption ≠ some none ∧
        (BTree.get Ordinal 3 s'.ordinalById firstHeader.id).toOption = some (some ⟨0⟩) ∧
        (BTree.get Ordinal 3 s'.ordinalById secondHeader.id).toOption = some (some ⟨0⟩))) = true := by
    decide +kernel
  have known {A : Type} {result : Except Fault A} {a : A} (here : result.toOption = some a) : result = .ok a := by
    cases result with
    | ok b => exact congrArg Except.ok (Option.some.inj here)
    | error e => cases here
  obtain ⟨_, s', made, shared⟩ := endsIn_spec created evaluated
  obtain ⟨present, present', here, there⟩ := of_decide_eq_true shared
  refine ⟨s, created, fun kept => ?_⟩
  unfold PairedAfter at kept
  rw [made] at kept
  have same := kept.apart firstHeader.id secondHeader.id ⟨0⟩ (fun no => present (by rw [no]; rfl))
    (fun no => present' (by rw [no]; rfl)) (known here) (known there)
  exact absurd same (by decide)

end Runs

end Gems.Engine
