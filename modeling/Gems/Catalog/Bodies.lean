import Gems.Catalog.Policy
import Gems.Catalog.Schema

set_option autoImplicit false

namespace Gems.Catalog

open Lib

section Subject

inductive SubjectKind where
  | builtinSystem | builtinAnonymous | builtinEveryone | builtinNobody | builtinAuthorized
  | user | group | organization | service
  deriving DecidableEq

def SubjectKind.toU8 : SubjectKind → UInt8
  | builtinSystem => 0
  | builtinAnonymous => 1
  | builtinEveryone => 2
  | builtinNobody => 3
  | builtinAuthorized => 4
  | user => 5
  | group => 6
  | organization => 7
  | service => 8

def SubjectKind.fromU8 (v : UInt8) : Except Fault SubjectKind :=
  match v.toNat with
  | 0 => .ok builtinSystem
  | 1 => .ok builtinAnonymous
  | 2 => .ok builtinEveryone
  | 3 => .ok builtinNobody
  | 4 => .ok builtinAuthorized
  | 5 => .ok user
  | 6 => .ok group
  | 7 => .ok organization
  | 8 => .ok service
  | _ => .error (invalid "unknown SubjectKind")

structure Credentials where
  passwordHash : Option (List UInt8)
  totpSecret : Option (List UInt8)
  deriving DecidableEq

structure Subject where
  kind : SubjectKind
  credentials : Option Credentials
  memberOf : List Tuid
  deriving DecidableEq

namespace Subject

def encodeCredentials : Option Credentials → List UInt8
  | some c => flagByte true ++ (writeOptionalBytes c.passwordHash ++ writeOptionalBytes c.totpSecret)
  | none => flagByte false

def encode (s : Subject) : List UInt8 :=
  [s.kind.toU8] ++ (encodeCredentials s.credentials ++ writeTuidList s.memberOf)

def readCredentials : Reader Fault (Option Credentials) := do
  let hasCredentials ← readU8 >>= fun b => pure (b != 0)
  if hasCredentials then
    let passwordHash ← readOptionalBytes
    let totpSecret ← readOptionalBytes
    return some { passwordHash, totpSecret }
  else return none

def read : Reader Fault Subject := do
  let kind ← readU8
  let kind ← Reader.ofExcept (SubjectKind.fromU8 kind)
  let credentials ← readCredentials
  let memberOf ← readTuidList
  return { kind, credentials, memberOf }

def decode (buf : List UInt8) : Except Fault Subject := (read buf).map Prod.fst

end Subject

end Subject

section Layer

structure Layer where
  groupRef : Tuid
  dynamicQuery : Option String

namespace Layer

def encodeQuery : Option String → List UInt8
  | some q => flagByte true ++ writeStringPrefixed q
  | none => flagByte false

def encode (l : Layer) : List UInt8 := l.groupRef.bytes ++ encodeQuery l.dynamicQuery

def readQuery : Reader Fault (Option String) := do
  let hasQuery ← readU8 >>= fun b => pure (b != 0)
  if hasQuery then
    let q ← readStringPrefixed
    return some q
  else return none

def read : Reader Fault Layer := do
  let groupRef ← readTuid
  let dynamicQuery ← readQuery
  return { groupRef, dynamicQuery }

def decode (buf : List UInt8) : Except Fault Layer := (read buf).map Prod.fst

end Layer

structure VariantList where
  values : List String

namespace VariantList

def encode (v : VariantList) : List UInt8 :=
  littleEndian 2 v.values.length ++ v.values.flatMap writeStringPrefixed

def read : Reader Fault VariantList := do
  let count ← readU16
  let values ← readStringPrefixed.times count
  return { values }

def decode (buf : List UInt8) : Except Fault VariantList := (read buf).map Prod.fst

end VariantList

end Layer

section Link

inductive LinkTemporality where
  | constant | temporal
  deriving DecidableEq

def LinkTemporality.toU8 : LinkTemporality → UInt8
  | constant => 0
  | temporal => 1

def LinkTemporality.fromU8 (v : UInt8) : Except Fault LinkTemporality :=
  match v.toNat with
  | 0 => .ok constant
  | 1 => .ok temporal
  | _ => .error (invalid "unknown link temporality")

structure Link where
  source : List Tuid
  target : List Tuid
  linkType : Tuid
  temporality : LinkTemporality
  from_ : Option Int64
  to_ : Option Int64

namespace Link

def writeOptionalI64 (v : Option Int64) : List UInt8 := flagByte v.isSome ++ littleEndian 8 (v.getD 0).toUInt64.toNat

def readOptionalI64 : Reader Fault (Option Int64) := do
  let present ← readU8 >>= fun b => pure (b != 0)
  let value ← readI64
  return if present then some value else none

def encode (l : Link) : List UInt8 :=
  writeTuidList l.source ++ (writeTuidList l.target ++ (l.linkType.bytes ++ ([l.temporality.toU8] ++
    (writeOptionalI64 l.from_ ++ writeOptionalI64 l.to_))))

def read : Reader Fault Link := do
  let source ← readTuidList
  let target ← readTuidList
  let linkType ← readTuid
  let temporality ← readU8
  let temporality ← Reader.ofExcept (LinkTemporality.fromU8 temporality)
  let from_ ← readOptionalI64
  let to_ ← readOptionalI64
  return { source, target, linkType, temporality, from_, to_ }

def decode (buf : List UInt8) : Except Fault Link := (read buf).map Prod.fst

end Link

end Link

section RoundTrip

variable {s : Subject} {l : Layer} {v : VariantList} {k : Link} {p : Policy}

theorem subjectKind_fromU8_toU8 (k : SubjectKind) : SubjectKind.fromU8 k.toU8 = .ok k := by
  cases k <;> rfl

theorem linkTemporality_fromU8_toU8 (t : LinkTemporality) : LinkTemporality.fromU8 t.toU8 = .ok t := by
  cases t <;> rfl

structure Credentials.Fits (c : Credentials) : Prop where
  passwordHash : ∀ b ∈ c.passwordHash, Short b
  totpSecret : ∀ b ∈ c.totpSecret, Short b

structure Subject.Fits (s : Subject) : Prop where
  credentials : ∀ c ∈ s.credentials, c.Fits
  memberOf : Short s.memberOf

structure VariantList.Fits (v : VariantList) : Prop where
  values : Short v.values
  texts : ∀ s ∈ v.values, Short (utf8 s)

structure Link.Fits (l : Link) : Prop where
  source : Short l.source
  target : Short l.target

def Layer.Fits (l : Layer) : Prop := ∀ q ∈ l.dynamicQuery, Short (utf8 q)

def Policy.Fits (p : Policy) : Prop := Short p.redactAttributes

def Credentials.kept (c : Credentials) : Credentials where
  passwordHash := keptBytes c.passwordHash
  totpSecret := keptBytes c.totpSecret

theorem reads_credentials {c : Option Credentials} (fits : ∀ c' ∈ c, c'.Fits) :
    Reader.Reads Subject.readCredentials (Subject.encodeCredentials c) (c.map Credentials.kept) := by
  cases c with
  | none =>
    have whole : Reader.Reads Subject.readCredentials (flagByte false ++ []) none := .bind (reads_flag false) .pure
    exact whole
  | some c =>
    refine .bind (reads_flag true) (.bind (reads_optionalBytes (fits c rfl).passwordHash) ?_)
    exact (reads_optionalBytes (fits c rfl).totpSecret).result fun totpSecret =>
      some ({ passwordHash := keptBytes c.passwordHash, totpSecret } : Credentials)

theorem Subject.decode_encode (fits : s.Fits) :
    decode s.encode = .ok { s with credentials := s.credentials.map Credentials.kept } := by
  apply decodes_of_reads
  refine .bind (.byte s.kind.toU8) ?_
  rw [subjectKind_fromU8_toU8]
  exact .known (.bind (reads_credentials fits.credentials) ((reads_tuidList fits.memberOf).result fun memberOf =>
    ({ s with credentials := s.credentials.map Credentials.kept, memberOf } : Subject)))

theorem reads_query {q : Option String} (fits : ∀ text ∈ q, Short (utf8 text)) :
    Reader.Reads Layer.readQuery (Layer.encodeQuery q) q := by
  cases q with
  | none =>
    have whole : Reader.Reads Layer.readQuery (flagByte false ++ []) none := .bind (reads_flag false) .pure
    exact whole
  | some text => exact .bind (reads_flag true) ((reads_stringPrefixed (fits text rfl)).result some)

theorem Layer.decode_encode (fits : l.Fits) : decode l.encode = .ok l :=
  decodes_of_reads (.bind (reads_tuid l.groupRef)
    ((reads_query fits).result fun dynamicQuery => ({ l with dynamicQuery } : Layer)))

theorem VariantList.decode_encode (fits : v.Fits) : decode v.encode = .ok v := by
  have values : Reader.Reads (readStringPrefixed.times v.values.length) _ (v.values.map id) :=
    .times v.values fun s mem => reads_stringPrefixed (fits.texts s mem)
  rw [List.map_id] at values
  exact decodes_of_reads (.bind (.number fits.values) (values.result fun values => ({ values } : VariantList)))

theorem reads_optionalI64 (v : Option Int64) : Reader.Reads Link.readOptionalI64 (Link.writeOptionalI64 v) v := by
  have whole : Reader.Reads Link.readOptionalI64 (Link.writeOptionalI64 v)
      (if v.isSome then some (v.getD 0) else none) :=
    .bind (reads_flag v.isSome) ((reads_i64 (v.getD 0)).result fun value => if v.isSome then some value else none)
  cases v <;> exact whole

theorem Link.decode_encode (fits : k.Fits) : decode k.encode = .ok k := by
  apply decodes_of_reads
  refine .bind (reads_tuidList fits.source) (.bind (reads_tuidList fits.target) (.bind (reads_tuid k.linkType)
    (.bind (.byte k.temporality.toU8) ?_)))
  rw [linkTemporality_fromU8_toU8]
  exact .known (.bind (reads_optionalI64 k.from_)
    ((reads_optionalI64 k.to_).result fun to_ => ({ k with to_ } : Link)))

theorem Policy.decode_encode (fits : p.Fits) : decode p.encode = .ok p := by
  have attributes : Reader.Reads (Policy.readAttributeId.times p.redactAttributes.length) _
      (p.redactAttributes.map id) := .times p.redactAttributes fun id _ => reads_attributeId id
  rw [List.map_id] at attributes
  have whole : Reader.Reads Policy.read ((flagByte p.target.entityKind.isSome ++
      [(p.target.entityKind.map EntityKind.toU8).getD 0]) ++ (p.target.schemaRef.bytes ++
        (p.subject.subjectId.bytes ++ (p.subject.roleId.bytes ++ ([p.effect.toU8] ++
          (littleEndian 2 p.redactAttributes.length ++
            p.redactAttributes.flatMap fun id => littleEndian 4 id.toNat)))))) p := by
    refine .bind (reads_kind p.target.entityKind) (.bind (reads_tuid p.target.schemaRef)
      (.bind (reads_tuid p.subject.subjectId) (.bind (reads_tuid p.subject.roleId) (.bind (.byte p.effect.toU8) ?_))))
    rw [effect_fromU8_toU8]
    exact .known (.bind (.number fits)
      (attributes.result fun redactAttributes => ({ p with redactAttributes } : Policy)))
  rw [List.append_assoc] at whole
  exact decodes_of_reads whole

/-- The bodies of the seven kinds of entities that have fields. -/
inductive SchemaBody where
  | entityAttribute (a : EntityAttribute)
  | entityType (t : EntityType)
  | subject (s : Subject)
  | layer (l : Layer)
  | variantList (v : VariantList)
  | link (l : Link)
  | policy (p : Policy)

/-- The template fits its field, the lists and the byte strings their lengths. -/
def SchemaBody.Fits : SchemaBody → Prop
  | entityAttribute a => a.Fits
  | entityType t => t.Fits
  | subject s => s.Fits
  | layer l => l.Fits
  | variantList v => v.Fits
  | link l => l.Fits
  | policy p => p.Fits

def SchemaBody.ReadsBack : SchemaBody → Prop
  | entityAttribute a => EntityAttribute.decode a.encode = .ok a
  | entityType t => EntityType.decode t.encode = .ok t
  | subject s => Subject.decode s.encode = .ok s
  | layer l => Layer.decode l.encode = .ok l
  | variantList v => VariantList.decode v.encode = .ok v
  | link l => Link.decode l.encode = .ok l
  | policy p => Policy.decode p.encode = .ok p

/-- None of its optional byte strings is there and empty. -/
def SchemaBody.NothingEmpty : SchemaBody → Prop
  | entityType t => ∀ a ∈ t.attributes, a.default_ ≠ some []
  | subject s => ∀ c ∈ s.credentials, c.passwordHash ≠ some [] ∧ c.totpSecret ≠ some []
  | _ => True

theorem attributes_kept_iff {attributes : List AttributeRef} :
    attributes.map AttributeRef.kept = attributes ↔ ∀ a ∈ attributes, a.default_ ≠ some [] := by
  have each (a : AttributeRef) : a.kept = a ↔ a.default_ ≠ some [] := by
    rw [← keptBytes_eq_iff]
    cases a
    simp [AttributeRef.kept]
  induction attributes with
  | nil => simp
  | cons a rest ih => simp [each, ih]

theorem credentials_kept_iff {c : Option Credentials} : c.map Credentials.kept = c ↔
    ∀ c' ∈ c, c'.passwordHash ≠ some [] ∧ c'.totpSecret ≠ some [] := by
  cases c with
  | none => simp
  | some c =>
    cases c
    simp [Credentials.kept, keptBytes_eq_iff]

/-- A body is read back exactly when no optional byte string in it is there and empty. -/
theorem schema_bodies_read_back {x : SchemaBody} (fits : x.Fits) : x.ReadsBack ↔ x.NothingEmpty := by
  cases x with
  | entityAttribute a => exact iff_of_true (EntityAttribute.decode_encode fits) trivial
  | entityType t =>
    rw [SchemaBody.ReadsBack, EntityType.decode_encode fits, SchemaBody.NothingEmpty, ← attributes_kept_iff]
    cases t
    simp
  | subject s =>
    rw [SchemaBody.ReadsBack, Subject.decode_encode fits, SchemaBody.NothingEmpty, ← credentials_kept_iff]
    cases s
    simp
  | layer l => exact iff_of_true (Layer.decode_encode fits) trivial
  | variantList v => exact iff_of_true (VariantList.decode_encode fits) trivial
  | link l => exact iff_of_true (Link.decode_encode fits) trivial
  | policy p => exact iff_of_true (Policy.decode_encode fits) trivial

def user (passwordHash : List UInt8) : Subject where
  kind := .user
  credentials := some { passwordHash := some passwordHash, totpSecret := none }
  memberOf := []

theorem user_fits {passwordHash : List UInt8} (short : Short passwordHash) :
    SchemaBody.Fits (.subject (user passwordHash)) where
  credentials := by
    rintro _ ⟨⟩
    exact ⟨by rintro _ ⟨⟩; exact short, by rintro _ ⟨⟩⟩
  memberOf := by simp [user, Short]

theorem schema_bodies_read_back_user : SchemaBody.ReadsBack (.subject (user [7])) :=
  (schema_bodies_read_back (user_fits (by simp [Short]))).mpr (by rintro _ ⟨⟩; decide)

-- The hash comes back as none.
theorem empty_hash_lost : SchemaBody.Fits (.subject (user [])) ∧ ¬ SchemaBody.ReadsBack (.subject (user [])) := by
  refine ⟨user_fits (by simp [Short]), ?_⟩
  have lost : Subject.decode (user []).encode ≠ .ok (user []) := by decide
  exact lost

end RoundTrip

end Gems.Catalog
