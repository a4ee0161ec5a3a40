import Gems.Abac.Enforce
import Gems.Base64Url
import Gems.Hmac
import Gems.Json.Write
import Gems.Tuid.Hex

set_option autoImplicit false

namespace Gems.Abac

open Lib

inductive TokenError where
  | missing
  | malformed
  | badSignature
  | expired
  deriving DecidableEq, Repr

-- Reading an identifier may panic.
abbrev Verdict (A : Type) := ExceptT TokenError (Except Fault) A

namespace Token

-- `{"alg":"HS256","typ":"JWT"}`
def headerB64 : List Char := "eyJhbGciOiJIUzI1NiIsInR5cCI6IkpXVCJ9".toList

def claims (subject : SubjectContext) (expiresAt : Option UInt64) : Json.Value :=
  let sub := Json.Value.string subject.subjectId.toHexString
  let roles := Json.Value.array (subject.roles.map fun r => .string r.toHexString)
  let entries := Json.Value.setEntry "roles" roles (Json.Value.setEntry "sub" sub [])
  match expiresAt with
  | none => .object entries
  | some exp => .object (Json.Value.setEntry "exp" (.number (.ofInt exp.toNat)) entries)

def issue (secret : List UInt8) (subject : SubjectContext) (expiresAt : Option UInt64) : String :=
  let payload := Base64Url.encode (utf8 (claims subject expiresAt).toString)
  let signingInput := headerB64 ++ '.' :: payload
  let signature := hmacSha256 secret (encodeChars signingInput)
  String.ofList (signingInput ++ '.' :: Base64Url.encode signature)

def orMalformed {A : Type} : Option A → Verdict A
  | some a => pure a
  | none => throw .malformed

def tuidOf (v : Json.Value) : Except Fault (Option Tuid) :=
  match v.asStr with
  | some s => Tuid.fromHexStr s
  | none => .ok none

-- Up to the first that is none.
def tuidsOf : List Json.Value → Except Fault (Option (List Tuid))
  | [] => .ok (some [])
  | v :: rest => do
    match ← tuidOf v with
    | none => return none
    | some t => return (← tuidsOf rest).map (t :: ·)

def subjectOf (claims : Json.Value) : Verdict Tuid := do
  let sub ← orMalformed (claims.get "sub")
  orMalformed (← ExceptT.lift (tuidOf sub))

def rolesOf (claims : Json.Value) : Verdict (List Tuid) := do
  let roles ← orMalformed ((claims.get "roles").bind Json.Value.asArray)
  orMalformed (← ExceptT.lift (tuidsOf roles))

def expired (claims : Json.Value) (now : UInt64) : Bool :=
  ((claims.get "exp").bind Json.Value.asF64).any fun exp => exp.le (.ofInt now.toNat)

-- What a token with the right signature says.
def readPayload (payload : List Char) (now : UInt64) : Verdict SubjectContext := do
  let payloadBytes ← orMalformed (Base64Url.decode (String.ofList payload)).toOption
  let payloadStr ← orMalformed (fromUtf8 payloadBytes)
  let claims ← orMalformed (Json.parse payloadStr).toOption
  let subjectId ← subjectOf claims
  let roles ← rolesOf claims
  if expired claims now then throw .expired else return { subjectId, roles }

def verify (secret : List UInt8) (token : String) (now : UInt64) : Verdict SubjectContext :=
  match token.toList.splitOn '.' with
  | [header, payload, signature] =>
    if header ≠ headerB64 then throw .malformed
    else do
      let signingInput := header ++ '.' :: payload
      let expectedSignature := hmacSha256 secret (encodeChars signingInput)
      let actualSignature ← orMalformed (Base64Url.decode (String.ofList signature)).toOption
      if constantTimeEq expectedSignature actualSignature then readPayload payload now
      else throw .badSignature
  | _ => throw .malformed

end Token

inductive AuthMode where
  | enforced (secret : List UInt8)
  | insecure

def AuthMode.authorize (bearerToken : Option String) (now : UInt64) : AuthMode → Verdict (Option SubjectContext)
  | .insecure => pure none
  | .enforced secret =>
    match bearerToken with
    | none => throw .missing
    | some token => some <$> Token.verify secret token now

namespace Token

section Reading

variable {subject : SubjectContext} {now : UInt64}

theorem tuidsOf_written (roles : List Tuid) :
    tuidsOf (roles.map fun r => .string r.toHexString) = .ok (some roles) := by
  induction roles with
  | nil => rfl
  | cons r roles ih =>
    have first : tuidOf (.string r.toHexString) = .ok (some r) := Tuid.fromHexStr_toHexString r
    rw [List.map_cons, tuidsOf, first]
    simp [bind, Except.bind, ih, pure, Except.pure]

theorem claims_get (subject : SubjectContext) (expiresAt : Option UInt64) :
    (claims subject expiresAt).get "sub" = some (.string subject.subjectId.toHexString) ∧
    (claims subject expiresAt).get "roles" = some (.array (subject.roles.map fun r => .string r.toHexString)) ∧
    (claims subject expiresAt).get "exp" = expiresAt.map fun exp => .number (.ofInt exp.toNat) := by
  cases expiresAt with
  | none => exact ⟨rfl, rfl, rfl⟩
  | some exp => exact ⟨rfl, rfl, rfl⟩

theorem claims_shape (expiresAt : Option UInt64) : claims subject expiresAt =
    .object (("sub", .string subject.subjectId.toHexString) ::
      ("roles", .array (subject.roles.map fun r => .string r.toHexString)) ::
      (expiresAt.map fun exp => ("exp", Json.Value.number (.ofInt exp.toNat))).toList) := by
  cases expiresAt <;> rfl

theorem nesting_roles (roles : List Tuid) :
    Json.Value.nestingItems (roles.map fun r => .string r.toHexString) = 0 := by
  induction roles with
  | nil => rfl
  | cons r roles ih =>
    rw [List.map_cons, Json.Value.nestingItems, ih]
    rfl

theorem parse_claims {expiresAt : Option UInt64} (small : ∀ exp ∈ expiresAt, exp.toNat < 2 ^ 53) :
    Json.parse (claims subject expiresAt).toString = .ok (claims subject expiresAt) := by
  have strings : (Json.Value.array (subject.roles.map fun r => .string r.toHexString)).Numbers Json.Value.Written := by
    apply Json.Value.Numbers.array
    intro v mem
    obtain ⟨r, -, rfl⟩ := List.mem_map.mp mem
    exact .string
  have numbers : (claims subject expiresAt).Numbers Json.Value.Written := by
    rw [claims_shape]
    apply Json.Value.Numbers.object
    rw [List.forall_mem_cons, List.forall_mem_cons]
    refine ⟨.string, strings, ?_⟩
    intro entry mem
    obtain ⟨exp, some, rfl⟩ := Option.map_eq_some_iff.mp (Option.mem_toList.mp mem)
    exact .number (Json.Value.written_ofInt (small exp some))
  have unsigned : (claims subject expiresAt).unsigned = claims subject expiresAt := by
    have same : Json.Value.unsignedItems (subject.roles.map fun r => .string r.toHexString) =
        subject.roles.map fun r => .string r.toHexString := by
      simp [Json.Value.unsignedItems_eq, Json.Value.unsigned]
    rw [claims_shape]
    cases expiresAt with
    | none => simp [Json.Value.unsigned, Json.Value.unsignedEntries, Json.Value.unsignedEntry, same]
    | some exp =>
      simp [Json.Value.unsigned, Json.Value.unsignedEntries, Json.Value.unsignedEntry, same, Json.unsignZero_ofInt]
  have nesting : (claims subject expiresAt).nesting ≤ Json.maxNestingDepth := by
    rw [claims_shape]
    cases expiresAt with
    | none => simp [Json.Value.nesting, Json.Value.nestingEntries,
        Json.Value.nestingEntry, nesting_roles, Json.maxNestingDepth]
    | some exp =>
      simp [Json.Value.nesting, Json.Value.nestingEntries, Json.Value.nestingEntry, nesting_roles, Json.maxNestingDepth]
  have read := Json.Value.parse_toString numbers nesting
  rwa [unsigned] at read

theorem readPayload_issued {expiresAt : Option UInt64} (small : ∀ exp ∈ expiresAt, exp.toNat < 2 ^ 53) :
    readPayload (Base64Url.encode (utf8 (claims subject expiresAt).toString)) now =
      if expiresAt.any (· ≤ now) then throw .expired else pure subject := by
  have fields := claims_get subject expiresAt
  have sub : subjectOf (claims subject expiresAt) = pure subject.subjectId := by
    have read : tuidOf (.string subject.subjectId.toHexString) = .ok (some subject.subjectId) :=
      Tuid.fromHexStr_toHexString subject.subjectId
    rw [subjectOf, fields.1, orMalformed, pure_bind, read]
    rfl
  have roles : rolesOf (claims subject expiresAt) = pure subject.roles := by
    rw [rolesOf, fields.2.1, Option.bind_some, Json.Value.asArray, orMalformed, pure_bind, tuidsOf_written]
    rfl
  have late : expired (claims subject expiresAt) now = expiresAt.any (· ≤ now) := by
    rw [expired, fields.2.2]
    cases expiresAt with
    | none => rfl
    | some exp =>
      have order := F64.le_ofInt_iff (m := now.toNat) (small exp rfl)
      rw [← UInt64.le_iff_toNat_le] at order
      change (F64.ofInt exp.toNat).le (.ofInt now.toNat) = decide (exp ≤ now)
      rw [Bool.eq_iff_iff, order, decide_eq_true_eq]
  simp only [readPayload, Base64Url.decode_encode, Except.toOption, orMalformed, pure_bind, fromUtf8_utf8,
    parse_claims small, sub, roles, late]

end Reading

section Tokens

variable {secret : List UInt8} {token : String} {now : UInt64} {subject : SubjectContext}

theorem verify_segments {payload signature : List Char} (dots : '.' ∉ payload) (dots' : '.' ∉ signature) :
    (headerB64 ++ '.' :: (payload ++ '.' :: signature)).splitOn '.' = [headerB64, payload, signature] := by
  rw [List.splitOn_append_cons_self_of_not_mem (by decide), List.splitOn_append_cons_self_of_not_mem dots,
    List.splitOn_eq_singleton dots']

theorem verify_issued (expiresAt : Option UInt64) (small : ∀ exp ∈ expiresAt, exp.toNat < 2 ^ 53) :
    verify secret (issue secret subject expiresAt) now =
      if expiresAt.any (· ≤ now) then throw .expired else pure subject := by
  have segments := verify_segments
    (Base64Url.dot_not_mem_encode (utf8 (claims subject expiresAt).toString))
    (Base64Url.dot_not_mem_encode (hmacSha256 secret (encodeChars (headerB64 ++ '.' ::
      Base64Url.encode (utf8 (claims subject expiresAt).toString)))))
  rw [verify, issue, String.toList_ofList, List.append_assoc, List.cons_append, segments]
  simp only [ne_eq, not_true_eq_false, if_false, Base64Url.decode_encode, Except.toOption, orMalformed, pure_bind,
    constantTimeEq_refl, if_true]
  exact readPayload_issued small

/-- Three segments: the fixed header, and a signature of the first two. -/
def Signed (secret : List UInt8) (token : String) : Prop :=
  ∃ payload signature, token.toList = headerB64 ++ '.' :: (payload ++ '.' :: signature) ∧ '.' ∉ payload ∧
    '.' ∉ signature ∧
    Base64Url.decode (String.ofList signature) = .ok (hmacSha256 secret (encodeChars (headerB64 ++ '.' :: payload)))

theorem dot_not_mem_splitOn {text segment : List Char} (mem : segment ∈ text.splitOn '.') : '.' ∉ segment := by
  induction text generalizing segment with
  | nil =>
    rw [List.splitOn_nil, List.mem_singleton] at mem
    rw [mem]
    exact List.not_mem_nil
  | cons c text ih =>
    rw [List.splitOn_cons_eq_if_modifyHead] at mem
    split at mem
    next =>
      rcases List.mem_cons.mp mem with rfl | later
      next => exact List.not_mem_nil
      next => exact ih later
    next other =>
      cases split : text.splitOn '.' with
      | nil => exact absurd split (List.splitOn_ne_nil _ _)
      | cons first rest =>
        rw [split] at ih mem
        rcases List.mem_cons.mp mem with rfl | later
        next =>
          intro dot
          rcases List.mem_cons.mp dot with rfl | inside
          next => exact other rfl
          next => exact ih List.mem_cons_self inside
        next => exact ih (List.mem_cons_of_mem _ later)

theorem signed_of_verify (accepted : verify secret token now = pure subject) : Signed secret token := by
  have whole : ['.'].intercalate (token.toList.splitOn '.') = token.toList := List.intercalate_splitOn '.'
  have dots {segment : List Char} (mem : segment ∈ token.toList.splitOn '.') := dot_not_mem_splitOn mem
  rw [verify] at accepted
  split at accepted
  next header payload signature segments =>
    rw [segments] at whole dots
    split at accepted
    next => cases accepted
    next same =>
      have fixed : header = headerB64 := not_not.mp same
      subst fixed
      cases decoded : Base64Url.decode (String.ofList signature) with
      | error e =>
        rw [decoded] at accepted
        cases accepted
      | ok actual =>
        rw [decoded] at accepted
        simp only [Except.toOption, orMalformed, pure_bind] at accepted
        split at accepted
        next equal =>
          refine ⟨payload, signature, ?_, dots (by simp), dots (by simp), ?_⟩
          next =>
            rw [← whole]
            simp [List.intercalate]
          next => rw [decoded, constantTimeEq_iff.mp equal]
        next => cases accepted
  next => cases accepted

/-- A token says what it was issued for as long as it has not expired, and only the owner of the
secret makes tokens. -/
theorem verify_issue (secret : List UInt8) (now : UInt64) :
    (∀ subject, verify secret (issue secret subject none) now = pure subject) ∧
    (∀ subject (exp : UInt64), exp.toNat < 2 ^ 53 →
      verify secret (issue secret subject (some exp)) now = if now < exp then pure subject else throw .expired) ∧
    ∀ token subject, verify secret token now = pure subject → Signed secret token := by
  refine ⟨?_, ?_, ?_⟩
  next =>
    intro subject
    exact verify_issued none fun _ no => nomatch no
  next =>
    intro subject exp small
    have fits : ∀ exp' ∈ some exp, exp'.toNat < 2 ^ 53 := by
      rintro exp' ⟨⟩
      exact small
    have read : verify secret (issue secret subject (some exp)) now = _ := verify_issued (some exp) fits
    rw [read]
    by_cases early : now < exp
    next => simp [early]
    next => simp [early, UInt64.not_lt.mp early]
  next =>
    intro token subject accepted
    exact signed_of_verify accepted

theorem verify_issue_hour :
    let subject : SubjectContext := ⟨Tuid.fromBytes (List.replicate 24 7), [Tuid.fromBytes (List.replicate 24 8)]⟩
    verify [1] (issue [1] subject (some 3600)) 0 = pure subject := by
  intro subject
  have read := (verify_issue [1] 0).2.1 subject 3600 (by decide)
  rwa [if_pos (by decide)] at read

end Tokens

end Token

end Gems.Abac
