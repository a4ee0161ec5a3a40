import Gems.Engine.Refine
import Gems.Engine.Synced

set_option autoImplicit false

namespace Gems.Engine

open Lib Prog Catalog Index Storage

variable {os : PageSize} {s s' : Store} {slots slots' : Slots} {ords ords' : Ordinals} {ids ids' : Reverse}
  {map map' : Entities} {depth depth' fuel n : Nat} {id : Tuid} {ord : Ordinal} {next next' : UInt32}
  {p : SlotPointer} {header : EntityHeader} {body : List UInt8} {e : Entity} {call : Call} {reply : Reply}

section Steps

structure Ready (next : UInt32) (slots : Slots) (ords : Ordinals) (ids : Reverse) (id : Tuid) : Prop where
  known : ∀ ord, ords id = some ord → ∀ o, ids o = some id ↔ o = ord
  unlisted : ords id = none → ∀ o, ids o = some id → o = ⟨next⟩
  free : ords id = none → ∀ other, slots other ≠ none → ords other ≠ some ⟨next⟩

-- The names of entity types are stored whole.
def NameFits (header : EntityHeader) : Prop :=
  header.entityKind = .entityType → (utf8 header.name).length ≤ nameMax

theorem Numbered.pairs (numbered : Numbered ords ids next id ord ords' ids' next') (pairs : Pairs slots ords ids)
    (ready : slots id = none → Ready next slots ords ids id) (known : slots id ≠ none → ords id ≠ none) :
    Pairs (Function.update slots id (some p)) ords' ids' := by
  intro other present o
  by_cases same : other = id
  · subst same
    cases numbered with
    | known here =>
      by_cases old : slots other = none
      · rw [here, (ready old).known ord here o, Option.some.injEq, eq_comm]
      · exact pairs other old o
    | fresh none room =>
      have absent : slots other = Option.none := by
        by_contra old
        exact known old none
      rw [Function.update_self, Option.some.injEq]
      by_cases first : o = ⟨next⟩
      · subst first
        rw [Function.update_self]
        exact iff_of_true rfl rfl
      · rw [Function.update_of_ne first]
        exact iff_of_false (Ne.symm first) fun there => first ((ready absent).unlisted none o there)
  · rw [Function.update_of_ne same] at present
    cases numbered with
    | known here => exact pairs other present o
    | fresh none room =>
      have absent : slots id = Option.none := by
        by_contra old
        exact known old none
      rw [Function.update_of_ne same]
      by_cases first : o = ⟨next⟩
      · subst first
        rw [Function.update_self, Option.some.injEq]
        exact iff_of_false ((ready absent).free none other present) (Ne.symm same)
      · rw [Function.update_of_ne first]
        exact pairs other present o

theorem Pairs.deleted (pairs : Pairs slots ords ids) (here : ords id = some ord) (present : slots id ≠ none) :
    Pairs (Function.update slots id none) (Function.update ords id none) (Function.update ids ord none) := by
  intro other present' o
  have apart : other ≠ id := by
    rintro rfl
    rw [Function.update_self] at present'
    exact present' rfl
  rw [Function.update_of_ne apart] at present' ⊢
  by_cases same : o = ord
  · subst same
    rw [Function.update_self]
    exact iff_of_false (fun there => apart (pairs.unique present present' here there)) (by simp)
  · rw [Function.update_of_ne same]
    exact pairs other present' o

theorem Tracks.renumbered {index : SecondaryIndex} {field : EntityHeader → Option (List UInt8)}
    (tracks : Tracks index field ords map) (same : ∀ id, map id ≠ none → ords' id = ords id) :
    Tracks index field ords' map := by
  intro value o
  rw [tracks value o]
  constructor
  · rintro ⟨id, e, known, here, listed⟩
    exact ⟨id, e, known, (same id (by simp [known])).trans here, listed⟩
  · rintro ⟨id, e, known, here, listed⟩
    exact ⟨id, e, known, (same id (by simp [known])).symm.trans here, listed⟩

theorem Numbered.others (numbered : Numbered ords ids next id ord ords' ids' next') {other : Tuid}
    (apart : other ≠ id) : ords' other = ords other := by
  cases numbered with
  | known here => rfl
  | fresh none room => exact Function.update_of_ne apart _ _

-- What an insertion does to one index.
def reindexField (index : SecondaryIndex) (field : EntityHeader → Option (List UInt8)) (old : Option Entity)
    (header : EntityHeader) (ord : Ordinal) : SecondaryIndex :=
  indexField (old.elim index fun e => deindexField index (field e.1) ord) (field header) ord

theorem reindexed_byKind (s : Store) (old : Option Entity) (ord : Ordinal) :
    (reindexed s old header body ord).byKind =
      reindexField s.byKind kindField old (Store.placed header body) ord := by
  cases old <;> rfl

theorem reindexed_bySchemaRef (s : Store) (old : Option Entity) (ord : Ordinal) :
    (reindexed s old header body ord).bySchemaRef =
      reindexField s.bySchemaRef schemaRefField old (Store.placed header body) ord := by
  cases old <;> rfl

theorem reindexed_byName (s : Store) (old : Option Entity) (ord : Ordinal) :
    (reindexed s old header body ord).entityTypeByName =
      reindexField s.entityTypeByName nameField old (Store.placed header body) ord := by
  rw [reindexed, indexHeader_name]
  cases old with
  | none => rfl
  | some e => rw [deindexed, deindexHeader_name]; rfl

theorem Linked.reindexed (linked : Linked os s slots ords ids map depth)
    (numbered : Numbered ords ids next header.id ord ords' ids' next') {index : SecondaryIndex}
    {field : EntityHeader → Option (List UInt8)} (tracks : Tracks index field ords map)
    (same : field (Store.placed header body) = field (stored header body).1) :
    Tracks (reindexField index field (map header.id) (Store.placed header body) ord) field ords'
      (Function.update map header.id (some (stored header body))) := by
  rw [reindexField, same]
  cases old : map header.id with
  | none =>
    have others : ∀ other, map other ≠ none → ords' other = ords other := by
      intro other present
      refine numbered.others ?_
      rintro rfl
      exact present old
    exact (tracks.renumbered others).indexed old numbered.here _
  | some e =>
    have present : map header.id ≠ none := by simp [old]
    have present' : slots header.id ≠ none := (linked.sound.present_iff header.id).mpr present
    obtain ⟨here, rfl, rfl⟩ := numbered.again (linked.sound.known header.id present')
    have without := tracks.deindexed old here (linked.apart present here)
    have again := without.indexed (Function.update_self ..) here (stored header body)
    rwa [Function.update_idem] at again

theorem Linked.deindexed (linked : Linked os s slots ords ids map depth) (known : map id = some e)
    (here : ords id = some ord) {index : SecondaryIndex} {field : EntityHeader → Option (List UInt8)}
    (tracks : Tracks index field ords map) :
    Tracks (deindexField index (field e.1) ord) field (Function.update ords id none)
      (Function.update map id none) := by
  have present : map id ≠ none := by simp [known]
  refine (tracks.deindexed known here (linked.apart present here)).renumbered fun other present' => ?_
  refine Function.update_of_ne ?_ _ _
  rintro rfl
  rw [Function.update_self] at present'
  exact present' rfl

theorem Inserted.linked (inserted : Inserted os s slots ords ids map depth' header body s' p ord ords' ids')
    (linked : Linked os s slots ords ids map depth)
    (ready : slots header.id = none → Ready s.nextOrdinal slots ords ids header.id) :
    Linked os s' (Function.update slots header.id (some p)) ords' ids'
      (Function.update map header.id (some (stored header body))) depth' :=
  ⟨inserted.sound, inserted.numbered.pairs linked.pairs ready (linked.sound.known header.id)⟩

theorem Deleted.linked (deleted : Deleted os s slots ords ids map depth' id ord s')
    (linked : Linked os s slots ords ids map depth) :
    Linked os s' (Function.update slots id none) (Function.update ords id none) (Function.update ids ord none)
      (Function.update map id none) depth' :=
  ⟨deleted.sound, linked.pairs.deleted deleted.here deleted.present⟩

structure Filed (s : Store) (ords : Ordinals) (map : Entities) : Prop where
  byKind : Tracks s.byKind kindField ords map
  bySchemaRef : Tracks s.bySchemaRef schemaRefField ords map

theorem Coherent.filed (coherent : Coherent s ords map) : Filed s ords map :=
  ⟨coherent.byKind, coherent.bySchemaRef⟩

theorem Inserted.filed (inserted : Inserted os s slots ords ids map depth' header body s' p ord ords' ids')
    (linked : Linked os s slots ords ids map depth) (filed : Filed s ords map) :
    Filed s' ords' (Function.update map header.id (some (stored header body))) where
  byKind := by
    rw [inserted.indexes.byKind, reindexed_byKind]
    exact linked.reindexed inserted.numbered filed.byKind rfl
  bySchemaRef := by
    rw [inserted.indexes.bySchemaRef, reindexed_bySchemaRef]
    exact linked.reindexed inserted.numbered filed.bySchemaRef rfl

theorem Deleted.filed (deleted : Deleted os s slots ords ids map depth' id ord s')
    (linked : Linked os s slots ords ids map depth) (filed : Filed s ords map) :
    Filed s' (Function.update ords id none) (Function.update map id none) := by
  obtain ⟨e, known⟩ := Option.ne_none_iff_exists'.mp ((linked.sound.present_iff id).mp deleted.present)
  have indexes := deleted.indexes
  rw [known] at indexes
  constructor
  · rw [indexes.byKind]
    exact linked.deindexed known deleted.here filed.byKind
  · rw [indexes.bySchemaRef]
    exact linked.deindexed known deleted.here filed.bySchemaRef

theorem nameField_placed (fits : NameFits header) :
    nameField (Store.placed header body) = nameField (stored header body).1 := by
  change (if header.entityKind = .entityType then some (nameKey header.name) else none) =
    if header.entityKind = .entityType then some (nameKey (cut nameMax header.name)) else none
  split
  next isType => rw [cut_of_fits (fits isType)]
  next other => rfl

theorem Inserted.synced (inserted : Inserted os s slots ords ids map depth' header body s' p ord ords' ids')
    (synced : Synced os s slots ords ids map depth) (fits : NameFits header)
    (ready : slots header.id = none → Ready s.nextOrdinal slots ords ids header.id) :
    Synced os s' (Function.update slots header.id (some p)) ords' ids'
      (Function.update map header.id (some (stored header body))) depth' := by
  have linked := inserted.linked synced.linked ready
  have filed := inserted.filed synced.linked synced.coherent.filed
  refine ⟨linked.sound, linked.pairs, filed.byKind, filed.bySchemaRef, ?_⟩
  rw [inserted.indexes.entityTypeByName, reindexed_byName]
  exact synced.linked.reindexed inserted.numbered synced.coherent.entityTypeByName (nameField_placed fits)

theorem Deleted.synced (deleted : Deleted os s slots ords ids map depth' id ord s')
    (synced : Synced os s slots ords ids map depth) :
    Synced os s' (Function.update slots id none) (Function.update ords id none) (Function.update ids ord none)
      (Function.update map id none) depth' := by
  have linked := deleted.linked synced.linked
  have filed := deleted.filed synced.linked synced.coherent.filed
  obtain ⟨e, known⟩ := Option.ne_none_iff_exists'.mp ((synced.sound.present_iff id).mp deleted.present)
  refine ⟨linked.sound, linked.pairs, filed.byKind, filed.bySchemaRef, ?_⟩
  rw [deleted.indexes.entityTypeByName, known, deindexed, deindexHeader_name]
  exact synced.linked.deindexed known deleted.here synced.coherent.entityTypeByName

theorem Reopened.synced (reopened : Reopened os slots ords ids map depth n s') (pairs : Pairs slots ords ids) :
    Synced os s' slots ords ids map depth :=
  ⟨reopened.sound, pairs, reopened.coherent⟩

end Steps

section Runs

variable {raw : Entities} {calls : List Call}

/-- Where no operation was ever stopped, only the present ids have ordinals, all below the next one. -/
structure Rested (os : PageSize) (s : Store) (slots : Slots) (ords : Ordinals) (ids : Reverse)
    (map : Entities) (depth : Nat) : Prop where
  linked : Linked os s slots ords ids map depth
  filed : Filed s ords map
  only : ∀ id, ords id ≠ none → slots id ≠ none
  back : ∀ ord id, ids ord = some id → ords id = some ord
  below : ∀ id ord, ords id = some ord → ord.value.toNat < s.nextOrdinal.toNat

/-- The same, with the index by name. -/
structure Settled (os : PageSize) (s : Store) (slots : Slots) (ords : Ordinals) (ids : Reverse)
    (map : Entities) (depth : Nat) : Prop where
  synced : Synced os s slots ords ids map depth
  only : ∀ id, ords id ≠ none → slots id ≠ none
  back : ∀ ord id, ids ord = some id → ords id = some ord
  below : ∀ id ord, ords id = some ord → ord.value.toNat < s.nextOrdinal.toNat

theorem Settled.rested (settled : Settled os s slots ords ids map depth) : Rested os s slots ords ids map depth :=
  ⟨settled.synced.linked, settled.synced.coherent.filed, settled.only, settled.back, settled.below⟩

theorem Settled.deeper (settled : Settled os s slots ords ids map depth) (deeper : depth ≤ depth') :
    Settled os s slots ords ids map depth' :=
  { settled with synced := settled.synced.deeper deeper }

theorem Rested.settled (rested : Rested os s slots ords ids map depth) (coherent : Coherent s ords map) :
    Settled os s slots ords ids map depth :=
  ⟨⟨rested.linked.sound, rested.linked.pairs, coherent⟩, rested.only, rested.back, rested.below⟩

theorem Rested.ready (rested : Rested os s slots ords ids map depth) (absent : slots id = none) :
    Ready s.nextOrdinal slots ords ids id where
  known ord here := absurd absent (rested.only id (by simp [here]))
  unlisted none o there := by
    have here := rested.back o id there
    rw [none] at here
    cases here
  free _ other _ here := absurd (rested.below other _ here) (lt_irrefl _)

theorem Numbered.only (numbered : Numbered ords ids next id ord ords' ids' next')
    (only : ∀ id, ords id ≠ none → slots id ≠ none) (p : SlotPointer) (other : Tuid) (here : ords' other ≠ none) :
    Function.update slots id (some p) other ≠ none := by
  by_cases same : other = id
  · subst same
    rw [Function.update_self]
    simp
  · rw [Function.update_of_ne same]
    rw [numbered.others same] at here
    exact only other here

theorem Numbered.back (numbered : Numbered ords ids next id ord ords' ids' next')
    (back : ∀ ord id, ids ord = some id → ords id = some ord) (o : Ordinal) (other : Tuid)
    (there : ids' o = some other) : ords' other = some o := by
  cases numbered with
  | known here => exact back o other there
  | fresh none room =>
    by_cases first : o = ⟨next⟩
    · subst first
      rw [Function.update_self] at there
      obtain rfl := Option.some.inj there
      exact Function.update_self ..
    · rw [Function.update_of_ne first] at there
      have here := back o other there
      have apart : other ≠ id := by
        rintro rfl
        rw [none] at here
        cases here
      rwa [Function.update_of_ne apart]

theorem Numbered.below (numbered : Numbered ords ids next id ord ords' ids' next')
    (below : ∀ id ord, ords id = some ord → ord.value.toNat < next.toNat) (other : Tuid) (o : Ordinal)
    (here : ords' other = some o) : o.value.toNat < next'.toNat := by
  cases numbered with
  | known _ => exact below other o here
  | fresh none room =>
    have bound := next.toNat_lt
    have more : (next + 1).toNat = next.toNat + 1 := by
      rw [UInt32.toNat_add, show (1 : UInt32).toNat = 1 from rfl, Nat.mod_eq_of_lt (by omega)]
    by_cases same : other = id
    · subst same
      rw [Function.update_self] at here
      obtain rfl := Option.some.inj here
      dsimp only
      omega
    · rw [Function.update_of_ne same] at here
      have before := below other o here
      omega

theorem Inserted.rested (inserted : Inserted os s slots ords ids map depth' header body s' p ord ords' ids')
    (rested : Rested os s slots ords ids map depth) :
    Rested os s' (Function.update slots header.id (some p)) ords' ids'
      (Function.update map header.id (some (stored header body))) depth' where
  linked := inserted.linked rested.linked rested.ready
  filed := inserted.filed rested.linked rested.filed
  only := inserted.numbered.only rested.only p
  back := inserted.numbered.back rested.back
  below := inserted.numbered.below rested.below

theorem Deleted.rested (deleted : Deleted os s slots ords ids map depth' id ord s')
    (rested : Rested os s slots ords ids map depth) :
    Rested os s' (Function.update slots id none) (Function.update ords id none) (Function.update ids ord none)
      (Function.update map id none) depth' where
  linked := deleted.linked rested.linked
  filed := deleted.filed rested.linked rested.filed
  only := by
    intro other here
    by_cases same : other = id
    · subst same
      rw [Function.update_self] at here
      exact absurd rfl here
    · rw [Function.update_of_ne same] at here ⊢
      exact rested.only other here
  back := by
    intro o other there
    by_cases same : o = ord
    · subst same
      rw [Function.update_self] at there
      cases there
    · rw [Function.update_of_ne same] at there
      have here := rested.back o other there
      have apart : other ≠ id := by
        rintro rfl
        exact same (Option.some.inj (here.symm.trans deleted.here))
      rwa [Function.update_of_ne apart]
  below := by
    intro other o here
    rw [deleted.next]
    by_cases same : other = id
    · subst same
      rw [Function.update_self] at here
      cases here
    · rw [Function.update_of_ne same] at here
      exact rested.below other o here

theorem Rested.deeper (rested : Rested os s slots ords ids map depth) (deeper : depth ≤ depth') :
    Rested os s slots ords ids map depth' :=
  { rested with linked := ⟨rested.linked.sound.deeper deeper, rested.linked.pairs⟩ }

theorem Reopened.rested (reopened : Reopened os slots ords ids map depth n s')
    (rested : Rested os s slots ords ids map depth) : Rested os s' slots ords ids map depth where
  linked := ⟨reopened.sound, rested.linked.pairs⟩
  filed := reopened.coherent.filed
  only := rested.only
  back := rested.back
  below id ord here := reopened.ahead id ord (rested.only id (by simp [here])) here

theorem Moved.rested (moved : Moved os s slots ords ids map depth call reply s' slots' ords' ids' map')
    (rested : Rested os s slots ords ids map depth) : Rested os s' slots' ords' ids' map' (depth + 1) := by
  have deeper := Nat.le_succ depth
  cases moved with
  | inserted inserted => exact inserted.rested rested
  | refused large => exact rested.deeper deeper
  | missing missing =>
    obtain ⟨t, rfl⟩ := missing.same
    have linked := Linked.mk missing.sound rested.linked.pairs
    exact Rested.deeper ⟨linked, ⟨rested.filed.byKind, rested.filed.bySchemaRef⟩, rested.only, rested.back,
      rested.below⟩ deeper
  | deleted deleted => exact (deleted.rested rested).deeper deeper
  | reopened reopened => exact (reopened.rested rested).deeper deeper

-- Every name of an entity type that the run stores fits its field.
def Named (calls : List Call) : Prop :=
  ∀ header body, .insert header body ∈ calls → Fits body → NameFits header

theorem Moved.settled (moved : Moved os s slots ords ids map depth call reply s' slots' ords' ids' map')
    (settled : Settled os s slots ords ids map depth) (named : Named [call]) :
    Settled os s' slots' ords' ids' map' (depth + 1) := by
  refine (moved.rested settled.rested).settled ?_
  have coherent := settled.synced.coherent
  cases moved with
  | @inserted header body _ _ _ _ _ inserted =>
    have fits := named header body List.mem_cons_self inserted.small
    exact (inserted.synced settled.synced fits settled.rested.ready).coherent
  | refused large => exact coherent
  | missing missing =>
    obtain ⟨t, rfl⟩ := missing.same
    exact coherent.congr ⟨rfl, rfl, rfl⟩
  | deleted deleted => exact (deleted.synced settled.synced).coherent
  | reopened reopened => exact reopened.coherent

-- The length of the data file tells its extents at every call that counts them.
def LeveledRun (os : PageSize) (fuel : Nat) : List Call → Store → Prop
  | [], _ => True
  | call :: rest, s => call.Leveled s ∧
    match call.exec os fuel s with
    | (.ok _, s') => LeveledRun os fuel rest s'
    | (.error _, _) => True

theorem runCalls_keeps {P : Store → Slots → Ordinals → Reverse → Entities → Nat → Prop}
    (sound : ∀ {s slots ords ids map depth}, P s slots ords ids map depth → Sound os s slots ords ids map depth)
    (keeps : ∀ {s slots ords ids map depth call reply s' slots' ords' ids' map'}, call ∈ calls →
      P s slots ords ids map depth → Moved os s slots ords ids map depth call reply s' slots' ords' ids' map' →
      P s' slots' ords' ids' map' (depth + 1))
    (start : P s slots ords ids (shown raw) depth) (enough : depth + calls.length ≤ fuel)
    (level : LeveledRun os fuel calls s) :
    match runCalls os fuel calls s with
    | (.ok given, s') => given = replies calls raw ∧ ∃ slots' ords' ids' depth', depth' ≤ fuel ∧
      P s' slots' ords' ids' (shown (contents calls raw)) depth'
    | (.error e, s') => e = .panicked ∧ Exhausted s' := by
  induction calls generalizing s slots ords ids raw depth with
  | nil => exact ⟨rfl, slots, ords, ids, depth, enough, start⟩
  | cons call rest ih =>
    rw [List.length_cons] at enough
    obtain ⟨now, later⟩ := level
    have here := sound start
    have step := exec_moved here (by omega : depth ≤ fuel) call now
    rw [runCalls]
    cases made : call.exec os fuel s with
    | mk result s' =>
      rw [made] at step later
      cases result with
      | error e => exact step
      | ok reply =>
        obtain ⟨slots', ords', ids', map', moved⟩ := step
        obtain ⟨rfl, rfl⟩ := moved.onMap rfl here
        have kept := keeps List.mem_cons_self start moved
        have ran := ih (fun mem => keeps (List.mem_cons_of_mem _ mem)) kept (by omega) later
        dsimp only
        cases made' : runCalls os fuel rest s' with
        | mk result' s'' =>
          rw [made'] at ran
          cases result' with
          | error e => exact ran
          | ok more =>
            obtain ⟨rfl, whole⟩ := ran
            exact ⟨rfl, whole⟩

theorem runCalls_rested (rested : Rested os s slots ords ids (shown raw) depth)
    (enough : depth + calls.length ≤ fuel) (level : LeveledRun os fuel calls s) :
    match runCalls os fuel calls s with
    | (.ok given, s') => given = replies calls raw ∧ ∃ slots' ords' ids' depth', depth' ≤ fuel ∧
      Rested os s' slots' ords' ids' (shown (contents calls raw)) depth'
    | (.error e, s') => e = .panicked ∧ Exhausted s' :=
  runCalls_keeps (P := Rested os) (fun here => here.linked.sound) (fun _ here moved => moved.rested here) rested
    enough level

theorem runCalls_settled (settled : Settled os s slots ords ids (shown raw) depth)
    (enough : depth + calls.length ≤ fuel) (level : LeveledRun os fuel calls s) (named : Named calls) :
    match runCalls os fuel calls s with
    | (.ok given, s') => given = replies calls raw ∧ ∃ slots' ords' ids' depth', depth' ≤ fuel ∧
      Settled os s' slots' ords' ids' (shown (contents calls raw)) depth'
    | (.error e, s') => e = .panicked ∧ Exhausted s' := by
  refine runCalls_keeps (P := Settled os) (fun here => here.synced.sound)
    (fun mem here moved => ?_) settled enough level
  exact moved.settled here fun header body only => named header body (List.mem_singleton.mp only ▸ mem)

theorem leveled_of_within (small : os.size ≤ 16384) (sound : Sound os s slots ords ids (shown raw) depth)
    (enough : depth + calls.length ≤ fuel) (few : Within os fuel 1000 calls s) : LeveledRun os fuel calls s := by
  induction calls generalizing s slots ords ids raw depth with
  | nil => trivial
  | cons call rest ih =>
    rw [List.length_cons] at enough
    obtain ⟨now, later⟩ := few
    have level := sound.level small now
    have step := exec_spec sound (by omega : depth ≤ fuel) level call
    refine ⟨call.leveled level, ?_⟩
    cases made : call.exec os fuel s with
    | mk result s' =>
      rw [made] at step later
      cases result with
      | error e => trivial
      | ok reply =>
        obtain ⟨-, -, slots', ords', ids', sound'⟩ := step
        exact ih sound' (by omega) later

theorem create_settled (created : Store.create os = .ok s) :
    Settled os s (fun _ => none) (fun _ => none) (fun _ => none) (shown fun _ => none) 0 := by
  obtain ⟨s', made, start, -, -, coherent⟩ := create_sound os
  obtain rfl : s' = s := Except.ok.inj (made.symm.trans created)
  exact
    { synced := ⟨start, fun _ here => absurd rfl here, coherent⟩
      only := fun _ here => absurd rfl here
      back := fun _ _ there => by cases there
      below := fun _ _ here => by cases here }

end Runs

end Gems.Engine
