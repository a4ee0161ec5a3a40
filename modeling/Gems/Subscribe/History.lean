import Gems.Subscribe.Loop
import Mathlib.Data.List.Induction

set_option autoImplicit false

namespace Gems.Subscribe

open Cluster Codec

def carried (body : List UInt8) (attributeId : UInt32) : Option (List UInt8) :=
  valueOf (GbvReader.new body).toOption attributeId

inductive Op where
  | subscribe (watch : Watch)
  | unsubscribe (id : SubscriptionId)
  | process (record : LogRecord)

namespace SubscriptionEngine

-- The order of a call changes no state, so any order serves here (`process_state`).
def step (s : SubscriptionEngine) : Op → SubscriptionEngine
  | .subscribe watch => (s.subscribe watch).1
  | .unsubscribe id => (s.unsubscribe id).1
  | .process record => (s.process s.watches record).1

def exec (ops : List Op) : SubscriptionEngine := ops.foldl step new

end SubscriptionEngine

section Spec

/-- What a record for `id` says about the attribute. -/
def sighting (id : Tuid) (attributeId : UInt32) : Op → Option (List UInt8)
  | .process (.insert header body) => if header.id = id then carried body attributeId else none
  | _ => none

-- The part of a run after the subscription `sub` was made.
def since : SubscriptionId → List Op → List Op
  | _, [] => []
  | 0, .subscribe _ :: rest => rest
  | sub + 1, .subscribe _ :: rest => since sub rest
  | sub, .unsubscribe _ :: rest => since sub rest
  | sub, .process _ :: rest => since sub rest

def latest (ops : List Op) (sub : SubscriptionId) (id : Tuid) (attributeId : UInt32) :
    Option (List UInt8) :=
  ((since sub ops).filterMap (sighting id attributeId)).getLast?

/-- The change that a subscription to `(id, attributeId)` should be told about. -/
def Expected (ops : List Op) (sub : SubscriptionId) (id : Tuid) (attributeId : UInt32)
    (record : LogRecord) (v : List UInt8) : Prop :=
  sighting id attributeId (.process record) = some v ∧
    ∃ u, latest ops sub id attributeId = some u ∧ u ≠ v

end Spec

section Since

variable {ops : List Op} {op : Op} {sub : SubscriptionId} {watch : Watch}

def subscribes : List Op → Nat
  | [] => 0
  | .subscribe _ :: rest => subscribes rest + 1
  | .unsubscribe _ :: rest => subscribes rest
  | .process _ :: rest => subscribes rest

theorem since_unsubscribe {id : SubscriptionId} : since sub (.unsubscribe id :: ops) = since sub ops := by
  cases sub <;> rfl

theorem since_process {record : LogRecord} : since sub (.process record :: ops) = since sub ops := by
  cases sub <;> rfl

theorem since_append (made : sub < subscribes ops) : since sub (ops ++ [op]) = since sub ops ++ [op] := by
  induction ops generalizing sub with
  | nil => exact absurd made (Nat.not_lt_zero _)
  | cons first rest ih =>
    cases first with
    | subscribe watch =>
      cases sub with
      | zero => rfl
      | succ sub => exact ih (Nat.lt_of_succ_lt_succ made)
    | unsubscribe id =>
      rw [List.cons_append, since_unsubscribe, since_unsubscribe]
      exact ih made
    | process record =>
      rw [List.cons_append, since_process, since_process]
      exact ih made

theorem since_new : since (subscribes ops) (ops ++ [.subscribe watch]) = [] := by
  induction ops with
  | nil => rfl
  | cons first rest ih =>
    cases first with
    | subscribe watch => exact ih
    | unsubscribe id =>
      rw [subscribes, List.cons_append, since_unsubscribe]
      exact ih
    | process record =>
      rw [subscribes, List.cons_append, since_process]
      exact ih

theorem subscribes_append : subscribes (ops ++ [op]) = subscribes ops + subscribes [op] := by
  induction ops with
  | nil => rw [List.nil_append, subscribes, Nat.zero_add]
  | cons first rest ih =>
    cases first with
    | subscribe watch => rw [List.cons_append, subscribes, subscribes, ih]; omega
    | unsubscribe id => exact ih
    | process record => exact ih

end Since

section Runs

open SubscriptionEngine

variable {ops : List Op} {op : Op} {s : SubscriptionEngine} {sub : SubscriptionId} {id : Tuid}
  {attributeId : UInt32} {record : LogRecord} {u v : List UInt8}

theorem exec_append : exec (ops ++ [op]) = (exec ops).step op := by
  rw [exec, exec, List.foldl_append]
  rfl

theorem latest_append (made : sub < subscribes ops) :
    latest (ops ++ [op]) sub id attributeId =
      (sighting id attributeId op).or (latest ops sub id attributeId) := by
  rw [latest, since_append made, List.filterMap_append]
  cases seen : sighting id attributeId op with
  | none => simp [seen, latest]
  | some v => simp [seen]

theorem process_cache {order : List (SubscriptionId × Watch)} :
    (s.process order record).1.fieldCache (id, attributeId) =
      if ∃ entry ∈ order, Watches id attributeId entry then
        (sighting id attributeId (.process record)).or (s.fieldCache (id, attributeId))
      else s.fieldCache (id, attributeId) := by
  cases record with
  | delete id' => simp [process, sighting]
  | insert header body =>
    refine Eq.trans (loop_cache header.id _ s.fieldCache [] order (id, attributeId)) ?_
    rw [sighting]
    by_cases about : header.id = id
    · subst about
      rw [if_pos rfl]
      exact if_congr (and_iff_right rfl) rfl rfl
    · simp [about, Ne.symm about]

-- The order of a call makes no difference to the state after it.
theorem process_state {order : List (SubscriptionId × Watch)} (perm : order.Perm s.watches) :
    (s.process order record).1 = s.step (.process record) := by
  have cache : (s.process order record).1.fieldCache = (s.process s.watches record).1.fieldCache := by
    funext ⟨id, attributeId⟩
    rw [process_cache, process_cache]
    simp only [perm.mem_iff]
  rw [step]
  cases record with
  | delete id => rfl
  | insert header body => exact congrArg (fun c => ({ s with fieldCache := c } : SubscriptionEngine)) cache

structure Tracks (ops : List Op) (s : SubscriptionEngine) : Prop where
  nextId : s.nextId = subscribes ops
  made : ∀ entry ∈ s.watches, entry.1 < s.nextId
  distinct : (s.watches.map Prod.fst).Nodup
  cached : ∀ sub id attributeId, (sub, .attributeChanged id attributeId) ∈ s.watches →
    ∀ u, latest ops sub id attributeId = some u → s.fieldCache (id, attributeId) = some u

theorem Tracks.subscribe {watch : Watch} (tracks : Tracks ops s) :
    Tracks (ops ++ [.subscribe watch]) (s.step (.subscribe watch)) where
  nextId := by
    rw [subscribes_append, ← tracks.nextId]
    rfl
  made := by
    intro entry mem
    change entry.1 < s.nextId + 1
    rcases List.mem_append.mp mem with old | new
    · exact Nat.lt_succ_of_lt (tracks.made entry old)
    · rw [List.mem_singleton.mp new]
      exact Nat.lt_succ_self _
  distinct := by
    change ((s.watches ++ [(s.nextId, watch)]).map Prod.fst).Nodup
    rw [List.map_append, List.nodup_append]
    refine ⟨tracks.distinct, List.nodup_singleton _, ?_⟩
    intro a old b new same
    obtain ⟨entry, mem, rfl⟩ := List.mem_map.mp old
    rw [List.map_singleton, List.mem_singleton] at new
    exact absurd (same.trans new) (Nat.ne_of_lt (tracks.made entry mem))
  cached := by
    intro sub id attributeId mem u seen
    rcases List.mem_append.mp mem with old | new
    · have earlier : sub < subscribes ops := tracks.nextId ▸ tracks.made _ old
      rw [latest_append earlier] at seen
      exact tracks.cached sub id attributeId old u seen
    · have same := List.mem_singleton.mp new
      rw [(Prod.mk.inj same).1, latest, tracks.nextId, since_new] at seen
      cases seen

theorem Tracks.unsubscribe {gone : SubscriptionId} (tracks : Tracks ops s) :
    Tracks (ops ++ [.unsubscribe gone]) (s.step (.unsubscribe gone)) where
  nextId := by
    rw [subscribes_append, ← tracks.nextId]
    rfl
  made := fun entry mem => tracks.made entry (List.mem_of_mem_filter mem)
  distinct := tracks.distinct.sublist (List.filter_sublist.map _)
  cached := by
    intro sub id attributeId mem u seen
    have old := List.mem_of_mem_filter mem
    have earlier : sub < subscribes ops := tracks.nextId ▸ tracks.made _ old
    rw [latest_append earlier] at seen
    exact tracks.cached sub id attributeId old u seen

theorem Tracks.process (tracks : Tracks ops s) :
    Tracks (ops ++ [.process record]) (s.step (.process record)) := by
  have watches : (s.step (.process record)).watches = s.watches := by cases record <;> rfl
  have next : (s.step (.process record)).nextId = s.nextId := by cases record <;> rfl
  exact
    { nextId := by
        rw [next, subscribes_append, ← tracks.nextId]
        rfl
      made := by
        rw [watches, next]
        exact tracks.made
      distinct := by
        rw [watches]
        exact tracks.distinct
      cached := by
        intro sub id attributeId mem u seen
        rw [watches] at mem
        have earlier : sub < subscribes ops := tracks.nextId ▸ tracks.made _ mem
        rw [latest_append earlier] at seen
        rw [step, process_cache, if_pos ⟨_, mem, rfl⟩]
        cases value : sighting id attributeId (.process record) with
        | none =>
          rw [value] at seen
          exact tracks.cached sub id attributeId mem u seen
        | some v =>
          rw [value] at seen
          exact seen }

theorem tracks_exec : Tracks ops (exec ops) := by
  induction ops using List.reverseRecOn with
  | nil =>
    exact
      { nextId := rfl
        made := fun _ none => absurd none List.not_mem_nil
        distinct := List.nodup_nil
        cached := fun _ _ _ none => absurd none List.not_mem_nil }
  | append_singleton ops op ih =>
    rw [exec_append]
    cases op with
    | subscribe watch => exact ih.subscribe
    | unsubscribe gone => exact ih.unsubscribe
    | process record => exact ih.process

end Runs

namespace SubscriptionEngine

/-- Whatever the order of the call, a subscription is told of exactly the changes it should be. -/
def Faithful (ops : List Op) (record : LogRecord) : Prop :=
  ∀ order : List (SubscriptionId × Watch), order.Perm (exec ops).watches →
    ∀ sub id attributeId, (sub, .attributeChanged id attributeId) ∈ (exec ops).watches →
      ∀ attributeId' v,
        (⟨sub, .fieldChanged attributeId' v⟩ ∈ ((exec ops).process order record).2 ↔
          attributeId' = attributeId ∧ Expected ops sub id attributeId record v)

/-- A watched value that is cached and differs finds one subscription to its pair only, and that one
has seen the attribute before. -/
def Undisturbed (ops : List Op) (record : LogRecord) : Prop :=
  ∀ id attributeId v old, sighting id attributeId (.process record) = some v →
    (exec ops).fieldCache (id, attributeId) = some old → old ≠ v →
      ∀ sub, (sub, .attributeChanged id attributeId) ∈ (exec ops).watches →
        latest ops sub id attributeId ≠ none ∧
          ∀ sub', (sub', .attributeChanged id attributeId) ∈ (exec ops).watches → sub' = sub

end SubscriptionEngine

section Faithful

open SubscriptionEngine

variable {ops : List Op} {record : LogRecord} {order : List (SubscriptionId × Watch)}
  {sub : SubscriptionId} {id : Tuid} {attributeId : UInt32} {v : List UInt8}

theorem told_iff {s : SubscriptionEngine} :
    ⟨sub, .fieldChanged attributeId v⟩ ∈ (s.process order record).2 ↔
      ∃ id, (order.find? fun entry => Watches id attributeId entry) =
          some (sub, .attributeChanged id attributeId) ∧
        sighting id attributeId (.process record) = some v ∧
        ∃ u, s.fieldCache (id, attributeId) = some u ∧ u ≠ v := by
  cases record with
  | delete gone =>
    simp only [process, processDelete, sighting, List.mem_filterMap]
    constructor
    · rintro ⟨⟨sub', watch⟩, -, told⟩
      cases watch <;> simp at told
    · rintro ⟨id, -, none, -⟩
      cases none
  | insert header body =>
    refine Iff.trans (mem_loop header.id _ s.fieldCache [] order sub attributeId v) ?_
    rw [or_iff_right List.not_mem_nil]
    constructor
    · rintro ⟨first, value, changed⟩
      exact ⟨header.id, first, by rw [sighting, if_pos rfl]; exact value, changed⟩
    · rintro ⟨id, first, value, changed⟩
      rw [sighting] at value
      split at value
      next about =>
        subst about
        exact ⟨first, value, changed⟩
      next => cases value

theorem sighting_id {id' : Tuid} {attributeId' : UInt32} {op : Op} {v' : List UInt8}
    (seen : sighting id attributeId op = some v) (seen' : sighting id' attributeId' op = some v') :
    id = id' := by
  unfold sighting at seen seen'
  split at seen
  next header body =>
    split at seen
    next about =>
      dsimp only at seen'
      split at seen'
      next about' => exact about.symm.trans about'
      next => cases seen'
    next => cases seen
  next => cases seen

theorem Tracks.unique {s : SubscriptionEngine} (tracks : Tracks ops s) {watch watch' : Watch}
    (mem : (sub, watch) ∈ s.watches) (mem' : (sub, watch') ∈ s.watches) : watch = watch' :=
  (Prod.mk.inj (List.inj_on_of_nodup_map tracks.distinct mem mem' rfl)).2

theorem find_watch (mem : (sub, Watch.attributeChanged id attributeId) ∈ order) :
    ∃ sub', (order.find? fun entry => Watches id attributeId entry) =
        some (sub', .attributeChanged id attributeId) ∧
      (sub', Watch.attributeChanged id attributeId) ∈ order := by
  cases first : order.find? fun entry => Watches id attributeId entry with
  | none => exact absurd (decide_eq_true rfl) (List.find?_eq_none.mp first _ mem)
  | some entry =>
    obtain ⟨sub', watch⟩ := entry
    have found := List.find?_some first
    have watched : watch = .attributeChanged id attributeId := of_decide_eq_true found
    subst watched
    exact ⟨sub', rfl, List.mem_of_find?_eq_some first⟩

theorem faithful_of_undisturbed (undisturbed : Undisturbed ops record) : Faithful ops record := by
  have tracks : Tracks ops (exec ops) := tracks_exec
  intro order perm sub id attributeId mem attributeId' v
  rw [told_iff]
  constructor
  · rintro ⟨id', first, seen, old, cached, differs⟩
    have mem' := perm.mem_iff.mp (List.mem_of_find?_eq_some first)
    obtain ⟨rfl, rfl⟩ := Watch.attributeChanged.inj (tracks.unique mem mem')
    refine ⟨rfl, seen, ?_⟩
    cases last : latest ops sub id attributeId with
    | none => exact absurd last (undisturbed id attributeId v old seen cached differs sub mem).1
    | some u =>
      have same := tracks.cached sub id attributeId mem u last
      rw [cached, Option.some.injEq] at same
      exact ⟨u, rfl, same ▸ differs⟩
  · rintro ⟨rfl, seen, u, last, differs⟩
    have cached := tracks.cached sub id attributeId' mem u last
    obtain ⟨sub', first, mem'⟩ := find_watch (perm.mem_iff.mpr mem)
    have alone := (undisturbed id attributeId' v u seen cached differs sub mem).2 sub'
      (perm.mem_iff.mp mem')
    exact ⟨id, by rw [first, alone], seen, u, cached, differs⟩

theorem undisturbed_of_faithful (faithful : Faithful ops record) : Undisturbed ops record := by
  intro id attributeId v old seen cached differs
  -- The order that comes to `sub` before all others.
  have front (sub : SubscriptionId) (mem : (sub, .attributeChanged id attributeId) ∈ (exec ops).watches) :
      ∃ order : List (SubscriptionId × Watch), order.Perm (exec ops).watches ∧
        (order.find? fun entry => Watches id attributeId entry) =
          some (sub, .attributeChanged id attributeId) :=
    ⟨_, (List.perm_cons_erase mem).symm, List.find?_cons_of_pos (by simp [Watches])⟩
  have expected (sub : SubscriptionId) (mem : (sub, .attributeChanged id attributeId) ∈ (exec ops).watches) :
      Expected ops sub id attributeId record v := by
    obtain ⟨order, perm, first⟩ := front sub mem
    exact ((faithful order perm sub id attributeId mem attributeId v).mp
      (told_iff.mpr ⟨id, first, seen, old, cached, differs⟩)).2
  intro sub mem
  refine ⟨?_, ?_⟩
  · obtain ⟨-, u, last, -⟩ := expected sub mem
    rw [last]
    exact Option.some_ne_none u
  · intro sub' mem'
    obtain ⟨order, perm, first⟩ := front sub mem
    have told := (faithful order perm sub' id attributeId mem' attributeId v).mpr ⟨rfl, expected sub' mem'⟩
    obtain ⟨id', first', seen', -⟩ := told_iff.mp told
    rw [← sighting_id seen seen', first, Option.some.injEq] at first'
    exact (Prod.mk.inj first').1.symm

/-- A watch of an attribute is told of exactly the changes since it was made if and only if no other
watch, live or gone, comes between it and the shared cache. -/
theorem faithful_iff_undisturbed (ops : List Op) (record : LogRecord) :
    Faithful ops record ↔ Undisturbed ops record :=
  ⟨undisturbed_of_faithful, faithful_of_undisturbed⟩

-- Attribute 7 with one byte as its value.
def oneField (value : UInt8) : List UInt8 := [1, 0] ++ [7, 0, 0, 0, 3, 0, 0, 0, 0, 1, 0, 0, 0] ++ [value]

def entity : Catalog.EntityHeader where
  id := .nil
  createdBy := .fromBytes []
  modifiedBy := .fromBytes []
  modifiedAtNs := 0
  name := "e"
  description := ""
  flags := ⟨0⟩
  entityKind := .data
  schemaRef := .nil
  bodyOffset := 0
  bodyLen := 0

/-- Two watches of one attribute: the second is never told. -/
theorem second_watch_misses :
    ¬ Faithful [.subscribe (.attributeChanged .nil 7), .subscribe (.attributeChanged .nil 7),
      .process (.insert entity (oneField 1))] (.insert entity (oneField 2)) := by
  intro faithful
  have told := (faithful _ (.refl _) 1 .nil 7 (by decide) 7 [2]).mpr
    ⟨rfl, by decide, [1], by decide, by decide⟩
  exact absurd told (by decide)

end Faithful

end Gems.Subscribe
