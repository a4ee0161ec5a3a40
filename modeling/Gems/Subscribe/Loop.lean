import Gems.Subscribe.Watch

set_option autoImplicit false

namespace Gems.Subscribe

open Cluster Codec

open SubscriptionEngine

variable {entityId : Tuid} {reader : Option GbvReader} {cache : FieldCache} {out : List Notification}
  {order : List (SubscriptionId × Watch)} {entry : SubscriptionId × Watch} {key : Tuid × UInt32}
  {sub : SubscriptionId} {attributeId : UInt32} {v : List UInt8}

def valueOf (reader : Option GbvReader) (attributeId : UInt32) : Option (List UInt8) :=
  (reader.bind fun r => r.get attributeId).map Prod.snd

def Watches (entityId : Tuid) (attributeId : UInt32) (entry : SubscriptionId × Watch) : Prop :=
  entry.2 = .attributeChanged entityId attributeId

instance : Decidable (Watches entityId attributeId entry) := inferInstanceAs (Decidable (_ = _))

theorem visit_other {id : Tuid} (other : id ≠ entityId) :
    visit entityId reader (cache, out) (sub, .attributeChanged id attributeId) = (cache, out) :=
  if_neg other

theorem visit_missing (missing : valueOf reader attributeId = none) :
    visit entityId reader (cache, out) (sub, .attributeChanged entityId attributeId) = (cache, out) := by
  rw [valueOf, Option.map_eq_none_iff] at missing
  simp only [visit, if_true, missing]

theorem visit_seen (seen : valueOf reader attributeId = some v) :
    visit entityId reader (cache, out) (sub, .attributeChanged entityId attributeId) =
      (Function.update cache (entityId, attributeId) (some v),
        if ∃ u, cache (entityId, attributeId) = some u ∧ u ≠ v then
          out ++ [⟨sub, .fieldChanged attributeId v⟩] else out) := by
  rw [valueOf, Option.map_eq_some_iff] at seen
  obtain ⟨⟨tag, v'⟩, found, rfl⟩ := seen
  simp only [visit, if_true, found]
  cases cache (entityId, attributeId) with
  | none => simp
  | some u => by_cases same : u = v' <;> simp [same]

variable (entityId reader cache out order entry key sub attributeId v)

theorem visit_cache : (visit entityId reader (cache, out) entry).1 key =
    if key.1 = entityId ∧ Watches entityId key.2 entry then (valueOf reader key.2).or (cache key)
    else cache key := by
  obtain ⟨sub, watch⟩ := entry
  obtain ⟨id', attr'⟩ := key
  cases watch with
  | attributeChanged id attr =>
    by_cases about : id = entityId
    · subst about
      cases value : valueOf reader attr with
      | none =>
        rw [visit_missing value]
        split
        next watched =>
          obtain ⟨-, same⟩ := watched
          rw [← (Watch.attributeChanged.inj same).2, value]
          rfl
        next => rfl
      | some v =>
        rw [visit_seen value]
        dsimp only
        by_cases same : (id', attr') = (id, attr)
        · obtain ⟨rfl, rfl⟩ := Prod.mk.inj same
          rw [if_pos ⟨rfl, rfl⟩, value]
          exact Function.update_self ..
        · rw [if_neg]
          · exact Function.update_of_ne same ..
          · rintro ⟨rfl, watched⟩
            exact same (by rw [(Watch.attributeChanged.inj watched).2])
    · rw [visit_other about, if_neg]
      rintro ⟨-, same⟩
      exact about (Watch.attributeChanged.inj same).1
  | anyChange id =>
    rw [if_neg (by simp [Watches]), visit]
    dsimp only
    split <;> rfl
  | entityDeleted id => simp [visit, Watches]
  | viewChanged id => simp [visit, Watches]

theorem mem_visit : ⟨sub, .fieldChanged attributeId v⟩ ∈ (visit entityId reader (cache, out) entry).2 ↔
    ⟨sub, .fieldChanged attributeId v⟩ ∈ out ∨
      entry = (sub, .attributeChanged entityId attributeId) ∧ valueOf reader attributeId = some v ∧
        ∃ u, cache (entityId, attributeId) = some u ∧ u ≠ v := by
  obtain ⟨sub', watch⟩ := entry
  cases watch with
  | attributeChanged id attr =>
    by_cases about : id = entityId
    · subst about
      cases value : valueOf reader attr with
      | none =>
        rw [visit_missing value]
        refine ⟨.inl, ?_⟩
        rintro (old | ⟨same, seen, -⟩)
        · exact old
        · cases same
          rw [value] at seen
          cases seen
      | some v' =>
        rw [visit_seen value]
        constructor
        · intro mem
          dsimp only at mem
          split at mem
          next changed =>
            rcases List.mem_append.mp mem with old | new
            · exact .inl old
            · cases List.mem_singleton.mp new
              exact .inr ⟨rfl, value, changed⟩
          next => exact .inl mem
        · dsimp only
          rintro (old | ⟨same, seen, changed⟩)
          · split
            · exact List.mem_append_left _ old
            · exact old
          · cases same
            rw [value] at seen
            cases seen
            rw [if_pos changed]
            exact List.mem_append_right _ List.mem_cons_self
    · rw [visit_other about]
      refine ⟨.inl, ?_⟩
      rintro (old | ⟨same, -⟩)
      · exact old
      · cases same
        exact absurd rfl about
  | anyChange id =>
    rw [visit]
    dsimp only
    split <;> simp
  | entityDeleted id => simp [visit]
  | viewChanged id => simp [visit]

theorem loop_cache : (order.foldl (visit entityId reader) (cache, out)).1 key =
    if key.1 = entityId ∧ ∃ entry ∈ order, Watches entityId key.2 entry then
      (valueOf reader key.2).or (cache key)
    else cache key := by
  induction order generalizing cache out with
  | nil => simp
  | cons entry rest ih =>
    rcases turn : visit entityId reader (cache, out) entry with ⟨cache', out'⟩
    have here := visit_cache entityId reader cache out entry key
    rw [turn] at here
    dsimp only at here
    rw [List.foldl_cons, turn, ih]
    by_cases first : key.1 = entityId ∧ Watches entityId key.2 entry
    · rw [if_pos first] at here
      rw [here, if_pos (c := _ ∧ ∃ _ ∈ entry :: rest, _) ⟨first.1, entry, List.mem_cons_self, first.2⟩]
      cases value : valueOf reader key.2 <;> simp
    · rw [if_neg first] at here
      rw [here]
      refine if_congr (and_congr_right fun about => ?_) rfl rfl
      rw [List.exists_mem_cons_iff, or_iff_right fun watched => first ⟨about, watched⟩]

theorem mem_loop : ⟨sub, .fieldChanged attributeId v⟩ ∈
      (order.foldl (visit entityId reader) (cache, out)).2 ↔
    ⟨sub, .fieldChanged attributeId v⟩ ∈ out ∨
      (order.find? fun entry => Watches entityId attributeId entry) =
          some (sub, .attributeChanged entityId attributeId) ∧
        valueOf reader attributeId = some v ∧ ∃ u, cache (entityId, attributeId) = some u ∧ u ≠ v := by
  induction order generalizing cache out with
  | nil => simp
  | cons entry rest ih =>
    rcases turn : visit entityId reader (cache, out) entry with ⟨cache', out'⟩
    have told := mem_visit entityId reader cache out entry sub attributeId v
    have kept := visit_cache entityId reader cache out entry (entityId, attributeId)
    rw [turn] at told kept
    dsimp only at told kept
    rw [List.foldl_cons, turn, ih, told, kept]
    by_cases first : Watches entityId attributeId entry
    · -- The turn of the first watch leaves the new value in the cache.
      rw [List.find?_cons_of_pos (by simpa using first), if_pos ⟨rfl, first⟩]
      have rest_none : ¬ ∃ u, (valueOf reader attributeId).or (cache (entityId, attributeId)) = some u ∧
          valueOf reader attributeId = some v ∧ u ≠ v := by
        rintro ⟨u, same, value, differs⟩
        rw [value] at same
        exact differs (Option.some.inj same).symm
      simp only [Option.some.injEq]
      constructor
      · rintro (old | ⟨-, value, u, same, differs⟩)
        · exact old
        · exact absurd ⟨u, same, value, differs⟩ rest_none
      · exact .inl
    · rw [List.find?_cons_of_neg (by simpa using first), if_neg fun both => first both.2]
      have other : entry ≠ (sub, .attributeChanged entityId attributeId) := by
        rintro rfl
        exact first rfl
      simp [other]

end Gems.Subscribe
