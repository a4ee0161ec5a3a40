import Gems.Catalog.Bodies

set_option autoImplicit false

namespace Gems.Catalog

section Role

-- A role has no fields.
structure Role where

namespace Role

def encode (_ : Role) : List UInt8 := []

def decode (buf : List UInt8) : Except Fault Role :=
  if !buf.isEmpty then .error (invalid "Role body must be empty") else .ok {}

end Role

end Role

def adminRoleName : String := "admin"

def analystRoleName : String := "analyst"

def consumerRoleName : String := "consumer"

def uuid (t : Tuid) : Uuid := .fromBytes (t.bytes.take 16)

structure SeedEntity where
  header : EntityHeader
  body : List UInt8

structure Bootstrap where
  adminRoleId : Tuid
  analystRoleId : Tuid
  consumerRoleId : Tuid
  adminSubjectId : Tuid
  entities : List SeedEntity

section Policies

variable (adminRoleId : Tuid)

def adminSeesEverything : Policy where
  target := .any
  subject := { subjectId := .nil, roleId := adminRoleId }
  effect := .permit
  redactAttributes := []

def anyoneReads (kind : EntityKind) : Policy where
  target := { entityKind := some kind, schemaRef := .nil }
  subject := .any
  effect := .permit
  redactAttributes := []

def anyoneReadsData : Policy := anyoneReads .data

def anyoneReadsTypes : Policy := anyoneReads .entityType

def starterPolicies : List Policy := [adminSeesEverything adminRoleId, anyoneReadsData, anyoneReadsTypes]

end Policies

-- How many ids bootstrap draws.
def bootstrapDraws : Nat := 14

-- `generated` are the ids in the order in which they are drawn; a header draws one for its placeholder.
def bootstrap (generated : Nat → Tuid) (adminName : String) : Bootstrap :=
  let adminRoleId := generated 0
  let analystRoleId := generated 1
  let consumerRoleId := generated 2
  let adminSubjectId := generated 3
  let role (i : Nat) (id : Tuid) (name : String) : SeedEntity :=
    { header := .new (uuid (generated i)) id name .role .nil, body := Role.encode {} }
  let policy (i : Nat) (policy : Policy) : SeedEntity :=
    { header := .new (uuid (generated (i + 1))) (generated i) "policy" .policy .nil, body := policy.encode }
  let admin : Subject := { kind := .user, credentials := none, memberOf := [] }
  { adminRoleId, analystRoleId, consumerRoleId, adminSubjectId
    entities :=
      [role 4 adminRoleId adminRoleName, role 5 analystRoleId analystRoleName, role 6 consumerRoleId consumerRoleName,
        policy 7 (adminSeesEverything adminRoleId), policy 9 anyoneReadsData, policy 11 anyoneReadsTypes,
        { header := .new (uuid (generated 13)) adminSubjectId adminName .subject .nil, body := admin.encode }] }

end Gems.Catalog
