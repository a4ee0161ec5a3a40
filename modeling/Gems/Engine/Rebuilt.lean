import Gems.Engine.Answers

set_option autoImplicit false

namespace Gems.Engine

open Lib Prog Catalog Index Storage

variable {os : PageSize} {s s' t : Store} {slots : Slots} {ords : Ordinals} {ids : Reverse} {map raw : Entities}
  {depth fuel : Nat} {calls : List Call}

section Answers

structure SameAnswers (fuel : Nat) (s t : Store) : Prop where
  byKind : ∀ kind, s.queryByKind fuel kind = t.queryByKind fuel kind
  bySchemaRef : ∀ typeId, s.queryBySchemaRef fuel typeId = t.queryBySchemaRef fuel typeId
  byName : ∀ name, s.findEntityTypeByName fuel name = t.findEntityTypeByName fuel name
  query : ∀ q, s.query fuel q = t.query fuel q

structure Resolves (fuel : Nat) (s : Store) : Prop where
  byKind : ∀ kind, ∃ list, s.queryByKind fuel kind = .ok list
  bySchemaRef : ∀ typeId, ∃ list, s.queryBySchemaRef fuel typeId = .ok list
  byName : ∀ name, ∃ found, s.findEntityTypeByName fuel name = .ok found
  query : ∀ q, (∃ list, s.query fuel q = .ok list) ∨ ∃ e, s.query fuel q = .error e ∧ Invalid e

theorem Synced.resolves (synced : Synced os s slots ords ids map depth) (enough : depth ≤ fuel) :
    Resolves fuel s where
  byKind kind := (synced.queryByKind enough kind).imp fun _ => And.left
  bySchemaRef typeId := (synced.queryBySchemaRef enough typeId).imp fun _ => And.left
  byName name := (synced.findEntityTypeByName enough name).imp fun _ => And.left
  query := synced.query_total enough

theorem Coherent.same (coherent : Coherent s ords map) (coherent' : Coherent t ords map) : SameIndexes s t where
  byKind := coherent.byKind.unique coherent'.byKind
  bySchemaRef := coherent.bySchemaRef.unique coherent'.bySchemaRef
  entityTypeByName := coherent.entityTypeByName.unique coherent'.entityTypeByName

theorem nodup_of_ids {entities : List Entity} (sorted : entities.Pairwise fun a b => a.1.id < b.1.id) :
    entities.Nodup := by
  refine sorted.imp ?_
  rintro a b below rfl
  exact absurd below (lt_irrefl _)

theorem Sound.scan_eq (sound : Sound os s slots ords ids map depth) (enough : depth ≤ fuel)
    {slots' : Slots} {ords' : Ordinals} {ids' : Reverse} {depth' : Nat}
    (sound' : Sound os t slots' ords' ids' map depth') (enough' : depth' ≤ fuel) :
    s.scanAll fuel = t.scanAll fuel := by
  obtain ⟨entities, scanned, sorted, all⟩ := sound.scan enough
  obtain ⟨entities', scanned', sorted', all'⟩ := sound'.scan enough'
  have perm : entities.Perm entities' :=
    (List.perm_ext_iff_of_nodup (nodup_of_ids sorted) (nodup_of_ids sorted')).mpr fun e => (all e).trans (all' e).symm
  rw [scanned, scanned', perm.eq_of_pairwise (fun _ _ _ _ below above => absurd below above.asymm) sorted sorted']

theorem Sound.resolve_eq (sound : Sound os s slots ords ids map depth) (enough : depth ≤ fuel)
    {slots' : Slots} {ords' : Ordinals} {map' : Entities} {depth' : Nat}
    (sound' : Sound os t slots' ords' ids map' depth') (enough' : depth' ≤ fuel) :
    s.resolveOrdinals fuel = t.resolveOrdinals fuel := by
  funext found
  simp only [Store.resolveOrdinals, sound.idByOrdinal.get enough, sound'.idByOrdinal.get enough']

theorem sameAnswers_of (indexes : SameIndexes s t) (resolve : s.resolveOrdinals fuel = t.resolveOrdinals fuel)
    (scan : s.scanAll fuel = t.scanAll fuel) : SameAnswers fuel s t := by
  have byName (name : String) : s.findEntityTypeByName fuel name = t.findEntityTypeByName fuel name := by
    rw [Store.findEntityTypeByName, Store.findEntityTypeByName, indexes.entityTypeByName, resolve]
  have turn : s.matchValue fuel = t.matchValue fuel := by
    funext matched value
    cases value <;> simp only [Store.matchValue, byName, indexes.bySchemaRef]
  have filter (expr : Query.Expr) : s.evalTypeInFilter fuel expr = t.evalTypeInFilter fuel expr := by
    cases expr <;> simp only [Store.evalTypeInFilter, turn, resolve]
  constructor
  · intro kind
    rw [Store.queryByKind, Store.queryByKind, indexes.byKind, resolve]
  · intro typeId
    rw [Store.queryBySchemaRef, Store.queryBySchemaRef, indexes.bySchemaRef, resolve]
  · exact byName
  · intro q
    simp only [Store.query, scan, filter]

end Answers

section Runs

-- The store with empty indexes, as rebuild_in_memory_indexes finds it.
def blank (s : Store) : Store :=
  { s with nextOrdinal := 0, byKind := .new, bySchemaRef := .new, entityTypeByName := .new }

/-- The indexes are those that a rebuild computes, no query meets an ordinal without an id, and closing and
reopening the store changes no answer. -/
structure IndexesKept (os : PageSize) (fuel : Nat) (s : Store) : Prop where
  rebuilt : ∃ t, (blank s).rebuildInMemoryIndexes fuel = .ok t ∧ SameIndexes s t
  resolves : Resolves fuel s
  reopened : Level s.data → ∃ t, Store.openDir os fuel s.onDisk = .ok t ∧ SameIndexes s t ∧ SameAnswers fuel s t

theorem Synced.indexesKept (synced : Synced os s slots ords ids map depth) (enough : depth ≤ fuel) :
    IndexesKept os fuel s where
  rebuilt := by
    have sound : Sound os (blank s) slots ords ids map depth :=
      { synced.sound with }
    obtain ⟨t, rebuilt, reopened⟩ := rebuild_spec sound enough ⟨.new _ _, .new _ _, .new _ _⟩
    exact ⟨t, rebuilt, synced.coherent.same reopened.coherent⟩
  resolves := synced.resolves enough
  reopened := by
    intro level
    have flat : s.data.extents.length * stride os / extentSize = s.data.extents.length := by
      rw [← synced.sound.data.held.mapped]
      exact level
    obtain ⟨t, opened, reopened⟩ := synced.sound.onDisk.openDir (Set.Subset.refl _) flat enough
    have same := synced.coherent.same reopened.coherent
    exact ⟨t, opened, same, sameAnswers_of same (synced.sound.resolve_eq enough reopened.sound enough)
      (synced.sound.scan_eq enough reopened.sound enough)⟩

/-- After the run, unless the page ids, the commit numbers or the ordinals ran out. -/
def KeptAfter (os : PageSize) (fuel : Nat) (calls : List Call) (s : Store) : Prop :=
  match runCalls os fuel calls s with
  | (.ok _, s') => IndexesKept os fuel s'
  | (.error e, s') => e = .panicked ∧ Exhausted s'

theorem indexes_kept (created : Store.create os = .ok s) (enough : calls.length ≤ fuel)
    (level : LeveledRun os fuel calls s) (named : Named calls) : KeptAfter os fuel calls s := by
  have enough' : 0 + calls.length ≤ fuel := (Nat.zero_add _).trans_le enough
  have ran := runCalls_settled (create_settled created) enough' level named
  unfold KeptAfter
  cases made : runCalls os fuel calls s with
  | mk result s' =>
    rw [made] at ran
    cases result with
    | error e => exact ran
    | ok given =>
      obtain ⟨-, slots, ords, ids, depth, shallow, settled⟩ := ran
      exact settled.synced.indexesKept shallow

def longName : String := String.ofList (List.replicate 64 'a')

def longType : EntityHeader := .new (.fromBytes []) .nil longName .entityType .nil

set_option maxRecDepth 4000 in
theorem indexes_kept_widget :
    ∃ s, Store.create fourKiB = .ok s ∧ KeptAfter fourKiB 2
      [.insert (.new (.fromBytes []) .nil "widget" .entityType .nil) [], .reopen] s := by
  have small : fourKiB.size ≤ 16384 := show 4096 ≤ 16384 by omega
  obtain ⟨s, created, start, none, -⟩ := create_sound fourKiB
  have start : Sound fourKiB s (fun _ => Option.none) (fun _ => Option.none) (fun _ => Option.none)
      (shown fun _ => Option.none) 0 := start
  have few : Within fourKiB 2 1000
      [.insert (.new (.fromBytes []) .nil "widget" .entityType .nil) [], .reopen] s :=
    within_of_short small start (by simp) (by simp [none])
  have named : Named [.insert (.new (.fromBytes []) .nil "widget" .entityType .nil) [], .reopen] := by
    intro header body mem _
    obtain ⟨rfl, rfl⟩ : header = .new (.fromBytes []) .nil "widget" .entityType .nil ∧ body = [] := by
      simpa using mem
    exact fun _ => by decide
  exact ⟨s, created, indexes_kept created (by simp) (leveled_of_within small start (by simp) few) named⟩

theorem Coherent.short_names (coherent : Coherent t ords (shown raw)) {name : String}
    (long : nameMax < (utf8 name).length) :
    t.entityTypeByName.get (nameKey name) = ∅ := by
  refine Finset.eq_empty_of_forall_notMem fun ord mem => ?_
  obtain ⟨id, e, known, -, listed⟩ := (coherent.entityTypeByName _ _).mp mem
  obtain ⟨e', -, rfl⟩ := Option.map_eq_some_iff.mp known
  have named : cut nameMax e'.1.name = name := (nameField_eq.mp listed).2
  have short := length_utf8_cut nameMax e'.1.name
  rw [named] at short
  omega

set_option maxRecDepth 100000 in
theorem indexes_lost : ∃ s, Store.create fourKiB = .ok s ∧ ¬ KeptAfter fourKiB 1 [.insert longType []] s := by
  have small : fourKiB.size ≤ 16384 := show 4096 ≤ 16384 by omega
  obtain ⟨s, created, start, none, -⟩ := create_sound fourKiB
  have start : Sound fourKiB s (fun _ => Option.none) (fun _ => Option.none) (fun _ => Option.none)
      (shown fun _ => Option.none) 0 := start
  have few : Within fourKiB 1 1000 [.insert longType []] s :=
    within_of_short small start (by simp) (by simp [none])
  -- the store knows one entity type by the long name
  have evaluated : endsIn fourKiB (runCalls fourKiB 1 [.insert longType []])
      (fun s' => (s'.entityTypeByName.get (nameKey longName)).card == 1) = true := by
    decide +kernel
  obtain ⟨given, s', made, listed⟩ := endsIn_spec created evaluated
  refine ⟨s, created, fun kept => ?_⟩
  have ran := runCalls_spec small start (by simp) few
  unfold KeptAfter at kept
  rw [made] at ran kept
  obtain ⟨-, slots, ords, ids, depth, shallow, sound⟩ := ran
  obtain ⟨⟨t, rebuilt, same⟩, -, -⟩ := kept
  have sound' : Sound fourKiB (blank s') slots ords ids _ depth := { sound with }
  obtain ⟨t', rebuilt', reopened⟩ := rebuild_spec sound' shallow ⟨.new _ _, .new _ _, .new _ _⟩
  obtain rfl : t = t' := Except.ok.inj (rebuilt.symm.trans rebuilt')
  have long : nameMax < (utf8 longName).length := by decide
  rw [same.entityTypeByName, reopened.coherent.short_names long] at listed
  cases listed

end Runs

end Gems.Engine
