import Gems.Catalog.Header
import Gems.Catalog.Util

set_option autoImplicit false

namespace Gems.Catalog

open Lib

inductive Effect where
  | permit | deny
  deriving DecidableEq, Repr

def Effect.toU8 : Effect → UInt8
  | permit => 0
  | deny => 1

def Effect.fromU8 (v : UInt8) : Except Fault Effect :=
  match v.toNat with
  | 0 => .ok permit
  | 1 => .ok deny
  | _ => .error (invalid "unknown policy effect")

-- `none` and the nil id both mean any.
structure TargetPredicate where
  entityKind : Option EntityKind
  schemaRef : Tuid

def TargetPredicate.any : TargetPredicate := { entityKind := none, schemaRef := .nil }

def TargetPredicate.matches (p : TargetPredicate) (entityKind : EntityKind) (schemaRef : Tuid) : Bool :=
  (p.entityKind.all fun k => k = entityKind) && (p.schemaRef = .nil || p.schemaRef = schemaRef)

structure SubjectPredicate where
  subjectId : Tuid
  roleId : Tuid

def SubjectPredicate.any : SubjectPredicate := { subjectId := .nil, roleId := .nil }

-- The id or the role is enough.
def SubjectPredicate.matches (p : SubjectPredicate) (actingSubject : Tuid) (subjectRoles : List Tuid) : Bool :=
  if p.subjectId = .nil ∧ p.roleId = .nil then true
  else (p.subjectId ≠ .nil && p.subjectId = actingSubject) || (p.roleId ≠ .nil && p.roleId ∈ subjectRoles)

structure Policy where
  target : TargetPredicate
  subject : SubjectPredicate
  effect : Effect
  redactAttributes : List UInt32

def Policy.applies (p : Policy) (actingSubject : Tuid) (subjectRoles : List Tuid) (entityKind : EntityKind)
    (schemaRef : Tuid) : Bool :=
  p.target.matches entityKind schemaRef && p.subject.matches actingSubject subjectRoles

namespace Policy

def encode (p : Policy) : List UInt8 :=
  flagByte p.target.entityKind.isSome ++ ([(p.target.entityKind.map EntityKind.toU8).getD 0] ++
    (p.target.schemaRef.bytes ++ (p.subject.subjectId.bytes ++ (p.subject.roleId.bytes ++ ([p.effect.toU8] ++
    (littleEndian 2 p.redactAttributes.length ++ p.redactAttributes.flatMap fun id => littleEndian 4 id.toNat))))))

def readKind : Reader Fault (Option EntityKind) := do
  let hasKind ← readU8 >>= fun b => pure (b != 0)
  let kindByte ← readU8
  if hasKind then
    let kind ← Reader.ofExcept (EntityKind.fromU8 kindByte)
    return some kind
  else return none

def readAttributeId : Reader Fault UInt32 := do
  let n ← Reader.number truncated 4
  return UInt32.ofNat n

def read : Reader Fault Policy := do
  let entityKind ← readKind
  let schemaRef ← readTuid
  let subjectId ← readTuid
  let roleId ← readTuid
  let effect ← readU8
  let effect ← Reader.ofExcept (Effect.fromU8 effect)
  let count ← readU16
  let redactAttributes ← readAttributeId.times count
  return { target := { entityKind, schemaRef }, subject := { subjectId, roleId }, effect, redactAttributes }

def decode (buf : List UInt8) : Except Fault Policy := (read buf).map Prod.fst

end Policy

section RoundTrip

theorem effect_fromU8_toU8 (e : Effect) : Effect.fromU8 e.toU8 = .ok e := by
  cases e <;> rfl

theorem reads_kind (kind : Option EntityKind) : Reader.Reads Policy.readKind
    (flagByte kind.isSome ++ [(kind.map EntityKind.toU8).getD 0]) kind := by
  refine .bind (reads_flag kind.isSome) ?_
  have byte : Reader.Reads readU8 [(kind.map EntityKind.toU8).getD 0] _ := .byte _
  cases kind with
  | none => exact byte.result fun _ => none
  | some kind =>
    have last : Reader.Reads (Reader.ofExcept (EntityKind.fromU8 kind.toU8) >>= fun kind =>
        (pure (some kind) : Reader Fault (Option EntityKind))) [] (some kind) := by
      rw [EntityKind.fromU8_toU8]
      exact .known .pure
    exact Reader.Reads.bind byte last

theorem reads_attributeId (id : UInt32) : Reader.Reads Policy.readAttributeId (littleEndian 4 id.toNat) id := by
  have bytes : Reader.Reads (Reader.number truncated 4) _ id.toNat := .number id.toNat_lt
  have whole := bytes.result UInt32.ofNat
  rwa [UInt32.ofNat_toNat] at whole

end RoundTrip

end Gems.Catalog
