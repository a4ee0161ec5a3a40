import Gems.Catalog.Policy
import Gems.Codec.Fields
import Gems.Lib.Lists
import Mathlib.Data.List.Destutter

set_option autoImplicit false

namespace Gems.Abac

open Lib Catalog Codec

structure SubjectContext where
  subjectId : Tuid
  roles : List Tuid

inductive Decision where
  | deny
  | permit (redactAttributes : List UInt32)
  deriving DecidableEq

-- A denial overrides; without an applicable policy the answer is a denial.
def evaluate (policies : List Policy) (subject : SubjectContext) (entityKind : EntityKind) (schemaRef : Tuid) :
    Decision :=
  let applicable := policies.filter fun p => p.applies subject.subjectId subject.roles entityKind schemaRef
  if applicable.any fun p => p.effect = .deny then .deny
  else if applicable.isEmpty then .deny
  else
    let redactAttributes := (applicable.filter fun p => p.effect = .permit).flatMap fun p => p.redactAttributes
    .permit ((sortByKey UInt32.toNat redactAttributes).destutter (· ≠ ·))

def enforceOne (policies : List Policy) (subject : SubjectContext) (entity : EntityHeader × List UInt8) :
    Option (EntityHeader × List UInt8) :=
  let (header, body) := entity
  match evaluate policies subject header.entityKind header.schemaRef with
  | .deny => none
  | .permit redactAttributes =>
    if redactAttributes.isEmpty then some (header, body)
    else
      match GbvReader.new body with
      | .ok r => some (header, r.redact redactAttributes)
      | .error _ => some (header, body)

def enforce (policies : List Policy) (subject : SubjectContext) (entities : List (EntityHeader × List UInt8)) :
    List (EntityHeader × List UInt8) :=
  entities.filterMap (enforceOne policies subject)

section Decisions

theorem evaluate_perm {policies policies' : List Policy} (perm : policies.Perm policies') (subject : SubjectContext)
    (entityKind : EntityKind) (schemaRef : Tuid) :
    evaluate policies subject entityKind schemaRef = evaluate policies' subject entityKind schemaRef := by
  have applicable := perm.filter fun p => p.applies subject.subjectId subject.roles entityKind schemaRef
  have redacted := (applicable.filter fun p => p.effect = .permit).flatMap_right fun p => p.redactAttributes
  have injective : Function.Injective UInt32.toNat := fun a b => UInt32.toNat_inj.mp
  simp only [evaluate, applicable.any_eq, applicable.isEmpty_eq, sortByKey_perm injective redacted]

theorem enforceOne_perm {policies policies' : List Policy} (perm : policies.Perm policies') (subject : SubjectContext) :
    enforceOne policies subject = enforceOne policies' subject := by
  funext entity
  simp only [enforceOne, evaluate_perm perm]

end Decisions

section Redaction

variable {policies : List Policy} {subject : SubjectContext} {header : EntityHeader}
  {fields fields' : List Field} {redacted : List UInt32}

-- The fields that are left.
def visible (redacted : List UInt32) (fields : List Field) : List Field :=
  fields.filter fun f => f.keyId ∉ redacted

theorem enforceOne_build (few : fields.length ≤ 65535) (small : valueBytes fields < 2 ^ 32)
    (permit : evaluate policies subject header.entityKind header.schemaRef = .permit redacted) :
    enforceOne policies subject (header, build fields) = some (header, build (if redacted = [] then fields
      else sortByKey Field.key (visible redacted fields))) := by
  simp only [enforceOne, permit]
  by_cases none : redacted = []
  · rw [if_pos none, if_pos (List.isEmpty_iff.mpr none)]
  · rw [if_neg none, if_neg (fun empty => none (List.isEmpty_iff.mp empty))]
    obtain ⟨r, opened, reading⟩ := build_reads few small
    simp only [opened]
    rw [reading.redact, filter_sortByKey, visible]

theorem enforceOne_some {e e' : EntityHeader × List UInt8} (given : enforceOne policies subject e = some e') :
    ∃ redacted, evaluate policies subject e.1.entityKind e.1.schemaRef = .permit redacted ∧ e'.1 = e.1 ∧
      ∀ r, GbvReader.new e'.2 = .ok r → ∀ k ∈ redacted, k ∉ r.keyIds := by
  obtain ⟨header, body⟩ := e
  simp only [enforceOne] at given
  cases decision : evaluate policies subject header.entityKind header.schemaRef with
  | deny =>
    rw [decision] at given
    cases given
  | permit redacted =>
    rw [decision] at given
    dsimp only at given
    refine ⟨redacted, rfl, ?_⟩
    split at given
    next empty =>
      obtain rfl := Option.some.inj given
      refine ⟨rfl, fun r _ k hidden => ?_⟩
      rw [List.isEmpty_iff.mp empty] at hidden
      cases hidden
    next =>
      cases opened : GbvReader.new body with
      | ok r =>
        rw [opened] at given
        obtain rfl := Option.some.inj given
        exact ⟨rfl, fun r' opened' => redact_keyIds opened opened'⟩
      | error e =>
        rw [opened] at given
        obtain rfl := Option.some.inj given
        exact ⟨rfl, fun r opened' => by cases opened.symm.trans opened'⟩

theorem visible_none (fields : List Field) : visible [] fields = fields :=
  List.filter_eq_self.mpr fun f _ => by simp

theorem enforceOne_visible (few : fields.length ≤ 65535) (small : valueBytes fields < 2 ^ 32)
    (permit : evaluate policies subject header.entityKind header.schemaRef = .permit redacted) :
    ∃ shown, shown.Perm (visible redacted fields) ∧
      enforceOne policies subject (header, build fields) = some (header, build shown) := by
  refine ⟨_, ?_, enforceOne_build few small permit⟩
  split
  next none => rw [none, visible_none]
  next => exact perm_sortByKey

/-- The redacted attributes leave no trace in the result, and the others are as they were. -/
theorem redaction_hides (few : fields.length ≤ 65535) (few' : fields'.length ≤ 65535)
    (small : valueBytes fields < 2 ^ 32) (small' : valueBytes fields' < 2 ^ 32)
    (permit : evaluate policies subject header.entityKind header.schemaRef = .permit redacted)
    (same : visible redacted fields = visible redacted fields') :
    ∃ out r, enforce policies subject [(header, build fields)] = [(header, out)] ∧
      enforce policies subject [(header, build fields')] = [(header, out)] ∧
      GbvReader.new out = .ok r ∧ (∀ k ∈ redacted, k ∉ r.keyIds) ∧
      ∀ f ∈ fields, f.keyId ∉ redacted → (fields.countP fun g => g.keyId = f.keyId) = 1 →
        r.get f.keyId = some (f.tag, f.value) := by
  obtain ⟨shown, perm, given⟩ := enforceOne_visible few small permit
  have given' : enforceOne policies subject (header, build fields') = some (header, build shown) := by
    rw [enforceOne_build few' small' permit, ← given, enforceOne_build few small permit]
    split
    next none => rw [← visible_none fields, ← visible_none fields', ← none, same]
    next => rw [same]
  have part : (visible redacted fields).Sublist fields := List.filter_sublist
  have fewShown : shown.length ≤ 65535 := perm.length_eq.le.trans (part.length_le.trans few)
  have smallShown : valueBytes shown < 2 ^ 32 := by
    have total : valueBytes shown = valueBytes (visible redacted fields) :=
      (perm.flatMap_right Field.value).length_eq
    exact total.trans_lt ((valueBytes_sublist part).trans_lt small)
  obtain ⟨r, opened, reading⟩ := build_reads fewShown smallShown
  have mem (f : Field) : f ∈ sortByKey Field.key shown ↔ f ∈ fields ∧ f.keyId ∉ redacted := by
    rw [mem_sortByKey, perm.mem_iff, visible, List.mem_filter, decide_eq_true_iff]
  refine ⟨build shown, r, by simp [enforce, given], by simp [enforce, given'], opened, ?_, ?_⟩
  · intro k hidden here
    rw [reading.keyIds] at here
    obtain ⟨f, memF, rfl⟩ := List.mem_map.mp here
    exact ((mem f).mp memF).2 hidden
  · intro f memF kept once
    obtain ⟨j, here⟩ := List.mem_iff_getElem?.mp ((mem f).mpr ⟨memF, kept⟩)
    have fewer : (sortByKey Field.key shown).countP (fun g => g.keyId = f.keyId) ≤ 1 := by
      rw [perm_sortByKey.countP_eq, perm.countP_eq, ← once]
      exact part.countP_le
    refine reading.get_found (sortByKey_sorted _ _) here fun i g found sameKey => ?_
    exact index_unique fewer found here (by simpa using sameKey) (by simp)

theorem redaction_hides_one :
    ∃ out r, enforce [⟨.any, .any, .permit, [2]⟩] ⟨.nil, []⟩
        [(.new (.fromBytes []) .nil "a" .data .nil, build [⟨2, .bool, [1]⟩, ⟨1, .bool, [0]⟩])] =
          [(.new (.fromBytes []) .nil "a" .data .nil, out)] ∧
      enforce [⟨.any, .any, .permit, [2]⟩] ⟨.nil, []⟩
        [(.new (.fromBytes []) .nil "a" .data .nil, build [⟨1, .bool, [0]⟩])] =
          [(.new (.fromBytes []) .nil "a" .data .nil, out)] ∧
      GbvReader.new out = .ok r ∧ (∀ k ∈ [2], k ∉ r.keyIds) ∧
      ∀ f ∈ ([⟨2, .bool, [1]⟩, ⟨1, .bool, [0]⟩] : List Field), f.keyId ∉ [2] →
        (([⟨2, .bool, [1]⟩, ⟨1, .bool, [0]⟩] : List Field).countP fun g => g.keyId = f.keyId) = 1 →
        r.get f.keyId = some (f.tag, f.value) :=
  redaction_hides (by decide) (by decide) (by decide) (by decide) (by decide) (by rfl)

end Redaction

end Gems.Abac
