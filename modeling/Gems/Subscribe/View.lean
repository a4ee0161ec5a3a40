import Gems.Cluster.Record
import Gems.Codec.Gbv
import Gems.Lib.SortedMap
import Mathlib.Data.Finset.Card
import Mathlib.Data.List.Induction

set_option autoImplicit false

namespace Gems.Subscribe

open Lib Catalog Cluster Codec

-- A u64 that counts up from 0.
abbrev ViewId := Nat

inductive ViewPredicate where
  | entityKind (kind : EntityKind)
  | schemaRef (typeId : Tuid)
  | attributeEquals (attributeId : UInt32) (value : List UInt8)

def ViewPredicate.matches : ViewPredicate → EntityHeader → List UInt8 → Bool
  | .entityKind kind, header, _ => header.entityKind = kind
  | .schemaRef typeId, header, _ => header.schemaRef = typeId
  | .attributeEquals attributeId value, _, body =>
    match GbvReader.new body with
    | .error _ => false
    | .ok reader => (reader.get attributeId).any fun field => field.2 = value

structure CountView where
  predicate : ViewPredicate
  members : Finset Tuid

-- The views are a hash map: nothing depends on its order but the order of the changes.
structure ViewEngine where
  views : SortedMap ViewId CountView
  nextId : ViewId

-- What a record does to one view, and whether it changes the count.
def CountView.process (view : CountView) : LogRecord → CountView × Bool
  | .delete id => ({ view with members := view.members.erase id }, id ∈ view.members)
  | .insert header body =>
    let matches_ := view.predicate.matches header body
    let wasMember := decide (header.id ∈ view.members)
    if matches_ && !wasMember then ({ view with members := insert header.id view.members }, true)
    else if !matches_ && wasMember then ({ view with members := view.members.erase header.id }, true)
    else (view, false)

namespace ViewEngine

def new : ViewEngine := { views := .empty, nextId := 0 }

def createView (e : ViewEngine) (predicate : ViewPredicate) : ViewEngine × ViewId :=
  ({ views := e.views.insert e.nextId { predicate, members := ∅ }, nextId := e.nextId + 1 }, e.nextId)

def dropView (e : ViewEngine) (id : ViewId) : ViewEngine × Bool :=
  ({ e with views := e.views.erase id }, (e.views.get id).isSome)

def count (e : ViewEngine) (id : ViewId) : Option Nat := (e.views.get id).map fun v => v.members.card

def process (e : ViewEngine) (record : LogRecord) : ViewEngine × List (ViewId × Nat) :=
  ({ e with views := e.views.mapValues fun v => (v.process record).1 },
    e.views.entries.filterMap fun entry =>
      let (view, changed) := entry.2.process record
      if changed then some (entry.1, view.members.card) else none)

end ViewEngine

section Recomputation

inductive ViewOp where
  | create (predicate : ViewPredicate)
  | drop (id : ViewId)
  | process (record : LogRecord)

def ViewOp.apply (e : ViewEngine) : ViewOp → ViewEngine
  | .create predicate => (e.createView predicate).1
  | .drop id => (e.dropView id).1
  | .process record => (e.process record).1

def recordId : LogRecord → Tuid
  | .insert header _ => header.id
  | .delete id => id

def processed (ops : List ViewOp) : List LogRecord :=
  ops.filterMap fun
    | .process record => some record
    | _ => none

-- The last record about an id.
def lastAbout (records : List LogRecord) (id : Tuid) : Option LogRecord :=
  records.reverse.find? fun r => recordId r = id

def satisfies (predicate : ViewPredicate) : Option LogRecord → Bool
  | some (.insert header body) => predicate.matches header body
  | _ => false

/-- The ids whose latest record is an insertion that satisfies the predicate. -/
def matching (predicate : ViewPredicate) (records : List LogRecord) : Finset Tuid :=
  (records.map recordId).toFinset.filter fun id => satisfies predicate (lastAbout records id)

variable {e : ViewEngine} {predicate : ViewPredicate} {records : List LogRecord} {record : LogRecord}
  {view : ViewId} {id : Tuid} {v : CountView}

theorem mem_matching : id ∈ matching predicate records ↔ satisfies predicate (lastAbout records id) = true := by
  rw [matching, Finset.mem_filter, List.mem_toFinset, and_iff_right_iff_imp]
  intro holds
  cases found : lastAbout records id with
  | none =>
    rw [found] at holds
    cases holds
  | some r =>
    have here := List.find?_some found
    have mem := List.mem_of_find?_eq_some found
    exact List.mem_map.mpr ⟨r, List.mem_reverse.mp mem, by simpa using here⟩

theorem lastAbout_snoc : lastAbout (records ++ [record]) id =
    if recordId record = id then some record else lastAbout records id := by
  simp only [lastAbout, List.reverse_append, List.reverse_singleton, List.singleton_append, List.find?_cons]
  by_cases same : recordId record = id
  · simp [same]
  · simp [same]

theorem process_members (members : v.members = matching v.predicate records) :
    (v.process record).1 = { v with members := matching v.predicate (records ++ [record]) } := by
  have next (id : Tuid) : id ∈ matching v.predicate (records ++ [record]) ↔
      if recordId record = id then satisfies v.predicate (some record) = true else id ∈ v.members := by
    rw [mem_matching, lastAbout_snoc, members, mem_matching]
    split <;> rfl
  obtain ⟨predicate, current⟩ := v
  dsimp only at members next ⊢
  cases record with
  | delete id =>
    simp only [CountView.process, CountView.mk.injEq, true_and]
    ext other
    rw [next, Finset.mem_erase]
    by_cases same : id = other
    · subst same
      simp [recordId, satisfies]
    · simp [recordId, same, Ne.symm same]
  | insert header body =>
    have whole : (CountView.process ⟨predicate, current⟩ (.insert header body)).1 =
        ⟨predicate, if predicate.matches header body then insert header.id current
          else current.erase header.id⟩ := by
      simp only [CountView.process]
      by_cases holds : predicate.matches header body = true
      · by_cases mem : header.id ∈ current
        · simp [holds, mem]
        · simp [holds, mem]
      · by_cases mem : header.id ∈ current
        · simp [holds, mem]
        · simp [holds, mem]
    rw [whole, CountView.mk.injEq]
    refine ⟨rfl, Finset.ext fun other => ?_⟩
    rw [next]
    by_cases same : header.id = other
    · subst same
      by_cases holds : predicate.matches header body = true
      · simp [recordId, satisfies, holds]
      · simp [recordId, satisfies, holds]
    · by_cases holds : predicate.matches header body = true
      · simp [recordId, same, holds, Ne.symm same]
      · simp [recordId, same, holds, Ne.symm same]

theorem process_changed (v : CountView) (record : LogRecord) :
    (v.process record).2 = true ↔ (v.process record).1.members.card ≠ v.members.card := by
  have shrinks {id : Tuid} (mem : id ∈ v.members) : (v.members.erase id).card ≠ v.members.card :=
    (Finset.card_erase_lt_of_mem mem).ne
  cases record with
  | delete id =>
    simp only [CountView.process, decide_eq_true_iff]
    by_cases mem : id ∈ v.members
    · exact iff_of_true mem (shrinks mem)
    · exact iff_of_false mem (by simp [mem])
  | insert header body =>
    simp only [CountView.process]
    by_cases holds : v.predicate.matches header body = true
    · by_cases mem : header.id ∈ v.members
      · simp [holds, mem]
      · simp [holds, mem]
    · by_cases mem : header.id ∈ v.members
      · simpa [holds, mem] using shrinks mem
      · simp [holds, mem]

def dropped (id : ViewId) (ops : List ViewOp) : Bool :=
  ops.any fun
    | .drop other => other = id
    | _ => false

theorem view_after (e : ViewEngine) (predicate : ViewPredicate) (ops : List ViewOp) :
    e.nextId < (ops.foldl ViewOp.apply (e.createView predicate).1).nextId ∧
      (ops.foldl ViewOp.apply (e.createView predicate).1).views.get e.nextId =
        if dropped e.nextId ops then none
        else some ⟨predicate, matching predicate (processed ops)⟩ := by
  induction ops using List.reverseRecOn with
  | nil =>
    refine ⟨Nat.lt_succ_self _, ?_⟩
    rw [List.foldl_nil, ViewEngine.createView, SortedMap.get_insert, Function.update_self]
    rfl
  | append_singleton ops op ih =>
    obtain ⟨above, here⟩ := ih
    rw [List.foldl_append, List.foldl_cons, List.foldl_nil]
    generalize ops.foldl ViewOp.apply (e.createView predicate).1 = e' at above here ⊢
    cases op with
    | create predicate' =>
      refine ⟨above.trans (Nat.lt_succ_self _), ?_⟩
      rw [ViewOp.apply, ViewEngine.createView, SortedMap.get_insert, Function.update_of_ne above.ne, here]
      simp [dropped, processed]
    | drop id =>
      refine ⟨above, ?_⟩
      rw [ViewOp.apply, ViewEngine.dropView, SortedMap.get_erase]
      by_cases same : e.nextId = id
      · subst same
        rw [Function.update_self]
        simp [dropped]
      · rw [Function.update_of_ne same, here]
        simp [dropped, processed, Ne.symm same]
    | process record =>
      refine ⟨above, ?_⟩
      rw [ViewOp.apply, ViewEngine.process, SortedMap.get_mapValues, here]
      have both : dropped e.nextId (ops ++ [.process record]) = dropped e.nextId ops := by simp [dropped]
      have more : processed (ops ++ [.process record]) = processed ops ++ [record] := by simp [processed]
      rw [both, more]
      split
      · rfl
      · rw [Option.map_some, process_members rfl]

theorem process_reports (e : ViewEngine) (record : LogRecord) :
    ((e.process record).2.map Prod.fst).Nodup ∧ ∀ view n, (view, n) ∈ (e.process record).2 ↔
      ∃ m, e.count view = some m ∧ (e.process record).1.count view = some n ∧ m ≠ n := by
  constructor
  · have reported (entries : List (ViewId × CountView)) : (entries.filterMap fun entry =>
        if (entry.2.process record).2 then some (entry.1, (entry.2.process record).1.members.card)
        else none).map Prod.fst = (entries.filter fun entry => (entry.2.process record).2).map Prod.fst := by
      induction entries with
      | nil => rfl
      | cons entry rest ih =>
        by_cases moved : (entry.2.process record).2 = true
        · simp [moved, ih]
        · simp [moved, ih]
    have part : ((e.process record).2.map Prod.fst).Sublist e.views.keys := by
      refine (reported e.views.entries).symm ▸ ?_
      exact List.filter_sublist.map Prod.fst
    exact (e.views.keys_sorted.imp ne_of_lt).sublist part
  · intro view n
    simp only [ViewEngine.count, ViewEngine.process, SortedMap.get_mapValues, List.mem_filterMap,
      Option.map_map]
    constructor
    · rintro ⟨⟨id, v⟩, mem, made⟩
      split at made
      next moved =>
        obtain ⟨rfl, rfl⟩ := Prod.mk.inj (Option.some.inj made)
        have found := SortedMap.mem_entries.mp mem
        refine ⟨v.members.card, by rw [found]; rfl, by rw [found]; rfl, ?_⟩
        exact ((process_changed v record).mp moved).symm
      next => cases made
    · rintro ⟨m, before, after, moved⟩
      obtain ⟨v, found, rfl⟩ := Option.map_eq_some_iff.mp before
      rw [found] at after
      obtain rfl := Option.some.inj after
      refine ⟨(view, v), SortedMap.mem_entries.mpr found, ?_⟩
      rw [if_pos ((process_changed v record).mpr (Ne.symm moved))]
      rfl

/-- The count of a view is that of the ids whose latest record matches, and process reports exactly the
changes of the live views. -/
theorem views_recomputed (e : ViewEngine) (predicate : ViewPredicate) (ops : List ViewOp) :
    (ops.foldl ViewOp.apply (e.createView predicate).1).count (e.createView predicate).2 =
        (if dropped (e.createView predicate).2 ops then none
          else some (matching predicate (processed ops)).card) ∧
      ∀ record, let before := ops.foldl ViewOp.apply (e.createView predicate).1
        ((before.process record).2.map Prod.fst).Nodup ∧ ∀ view n, (view, n) ∈ (before.process record).2 ↔
          ∃ m, before.count view = some m ∧ (before.process record).1.count view = some n ∧ m ≠ n := by
  refine ⟨?_, fun record => process_reports _ record⟩
  obtain ⟨-, here⟩ := view_after e predicate ops
  rw [show (e.createView predicate).2 = e.nextId from rfl, ViewEngine.count, here]
  split <;> rfl

end Recomputation

end Gems.Subscribe
