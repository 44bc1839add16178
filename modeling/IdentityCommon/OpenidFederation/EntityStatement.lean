import IdentityCommon.Common.StrictSchemas
import IdentityCommon.Ecma.Date
import IdentityCommon.Jose.JwkSet
import IdentityCommon.Jose.SignJws
import IdentityCommon.OpenidFederation.MetadataPolicy

/-!
# Entity statements

Entity statements as signed JWTs: their keys, their header and their claims, how they are parsed,
and how their signature is verified with a key of a key set.

## Main definitions

- `EntityStatementClaims` — the claims of a statement
- `zEntityStatementJwt`, `zEntityConfigurationJwt` — what a text is parsed to
- `verifyJwtSignature` — the signature, with a key of a key set or of the claims themselves

## Main results

- `signed_of_verifyJwtSignature`, `signed_of_verifyJwtSignature_none` — a signature that is verified
  is that of a key of the key set, or of the claims

## Design notes

The schemas of URLs, metadata and trust marks are parameters. An error that is thrown is its
message. JSON objects have distinct names, which the policies of a statement keep.
-/

namespace IdentityCommon.OpenidFederation

open IdentityCommon.Except AssocList Ecma Value Common Jose

/-! ## Keys -/

def jsonWebKeyShape : List (String × Schema) :=
  [("kty", zString), ("kid", zString), ("use", optional zString),
    ("key_ops", optional (array zString)), ("alg", optional zString), ("x5u", optional zString),
      ("x5c", optional (array zString)), ("x5t", optional zString),
    ("x5t#S256", optional zString)]

def zJsonWebKey : Schema := looseObject jsonWebKeyShape

/-- `z.object(shape)`: the other members are left out. -/
def object (shape : List (String × Schema)) : Schema
  | obj members => (parseShape shape members).map obj
  | _ => none

def zJsonWebKeySet : Schema := object [("keys", array zJsonWebKey)]

def kidOf (value : Value) : Option String := textOf (value.get "kid")

theorem settles_array {schema : Schema} (hs : Settles schema) : Settles (array schema) := by
  intro v w h
  unfold array at h
  split at h
  · obtain ⟨items, hitems, rfl⟩ := Option.map_eq_some_iff.mp h
    rw [array, hs.mapM hitems]
    rfl
  · cases h

theorem settles_looseObject {shape : List (String × Schema)} (hn : (keys shape).Nodup)
    (hs : ∀ s ∈ shape, Settles s.2) :
    Settles (looseObject shape) := by
  intro v w h
  obtain ⟨members, known, rfl, hknown, rfl⟩ := looseObject_eq_some h
  have hkeys : ∀ key ∈ keys known, key ∈ keys shape :=
    fun key hkey => (keys_parseShape hknown).subset hkey
  -- the members that are known come first, and none of the others has a schema
  have hparse : parseShape shape (known ++ members.filter fun m => isOther shape m.1) =
      some known := by
    apply Settles.parseShape hn hs hknown
    intro key hkey
    have hother : (members.filter fun m => isOther shape m.1).lookup key = none := by
      apply lookup_eq_none_iff.mpr
      intro hmem
      obtain ⟨m, hm, rfl⟩ := List.mem_map.mp hmem
      obtain ⟨-, hother⟩ := List.mem_filter.mp hm
      rw [isOther, decide_eq_true_eq] at hother
      exact hother.1 hkey
    rw [List.lookup_append, hother, Option.or_none]
  refine Option.bind_eq_some_iff.mpr ⟨known, hparse, ?_⟩
  rw [List.filter_append, filter_isOther_of_known hkeys, List.nil_append, List.filter_filter]
  simp only [Bool.and_self]

theorem object_eq_some {shape : List (String × Schema)} {v w : Value}
    (h : object shape v = some w) :
    ∃ members known, v = obj members ∧ parseShape shape members = some known ∧ w = obj known := by
  unfold object at h
  split at h
  case h_1 members =>
    obtain ⟨known, hknown, rfl⟩ := Option.map_eq_some_iff.mp h
    exact ⟨members, known, rfl, hknown, rfl⟩
  case h_2 => cases h

theorem settles_object {shape : List (String × Schema)} (hn : (keys shape).Nodup)
    (hs : ∀ s ∈ shape, Settles s.2) :
    Settles (object shape) := by
  intro v w h
  obtain ⟨members, known, rfl, hknown, rfl⟩ := object_eq_some h
  rw [object, Settles.parseShape hn hs hknown fun _ _ => rfl]
  rfl

theorem settles_zJsonWebKeySet : Settles zJsonWebKeySet := by
  have htext : Settles (optional zString) := (settles_textWhere _).optional
  have htexts : Settles (optional (array zString)) := (settles_array (settles_textWhere _)).optional
  have hkey : Settles zJsonWebKey := by
    apply settles_looseObject (by decide)
    intro s hs
    fin_cases hs
    case «0» => exact settles_textWhere _
    case «1» => exact settles_textWhere _
    case «3» => exact htexts
    case «6» => exact htexts
    all_goals exact htext
  apply settles_object (by decide)
  intro s hs
  obtain rfl := List.mem_singleton.mp hs
  exact settles_array hkey

/-! ## Claims -/

structure Constraint where
  maxPathLength : Option Number
  namingConstraints : Option Value
  allowedEntityTypes : Option (List String)

structure EntityStatementClaims where
  iss : String
  sub : String
  iat : Date
  exp : Date
  jwks : Value
  authorityHints : Option (List String)
  metadata : Option Metadata
  /-- `metadata_policy` and `metadata_policy_crit`. -/
  policy : PolicyStatement
  constraints : Option Constraint
  crit : Option (List String)
  trustMarks : Option Value
  trustMarkIssuers : Option Value
  trustMarkOwners : Option Value
  sourceEndpoint : Option String

/-- The schemas that are not modelled. A URL is returned without the whitespace around it. -/
structure ClaimSchemas where
  zUrl : String → Option String
  /-- `z.url({ protocol: /^https$/ })`. -/
  zHttpsUrl : String → Option String
  zMetadata : Value → Option Metadata
  zTrustMarks : Value → Option Value
  zTrustMarkIssuer : Value → Option Value
  zTrustMarkOwner : Value → Option Value

/-- An optional member. -/
def optionally {α : Type} (read : Value → Option α) : Value → Option (Option α)
  | undefined => some none
  | value => (read value).map some

def listOf {α : Type} (read : Value → Option α) : Value → Option (List α)
  | arr items => items.mapM read
  | _ => none

/-- `z.record(z.string(), …)`. An own member `__proto__` is left out. -/
def recordOf {α : Type} (read : Value → Option α) : Value → Option (List (String × α))
  | obj members => (members.filter (·.1 ≠ "__proto__")).mapM fun m => (read m.2).map (m.1, ·)
  | _ => none

def zDate : Value → Option Date
  | num n => if (Double.ofNumber n).isFinite then some (secondsToDate (Double.ofNumber n)) else none
  | _ => none

/-- A number that is finite. -/
def numberOf : Value → Option Number
  | num n => if (Double.ofNumber n).isFinite then some n else none
  | _ => none

def membersOf : Value → Option Members
  | obj members => some members
  | _ => none

def zNamingConstraints : Schema :=
  object [("permitted", optional (array zString)), ("excluded", optional (array zString))]

def zAllowedEntityType (value : Value) : Option String :=
  (textOf value).filter (· ≠ "federation_entity")

def member (members : Members) (key : String) : Value := (members.lookup key).getD undefined

def zConstraint : Value → Option Constraint
  | obj members => do
    let maxPathLength ← optionally numberOf (member members "max_path_length")
    let namingConstraints ← optionally zNamingConstraints (member members "naming_constraints")
    let allowedEntityTypes ← optionally (listOf zAllowedEntityType)
      (member members "allowed_entity_types")
    return { maxPathLength, namingConstraints, allowedEntityTypes }
  | _ => none

/-- The names of the policies are distinct, and the rules meet their schema. -/
def isValidPolicy (policy : List (String × List (String × Members))) : Bool :=
  (keys policy).Nodup ∧ ∀ service ∈ policy, (keys service.2).Nodup ∧
    ∀ property ∈ service.2, (keys property.2).Nodup ∧ (zMetadataPolicy property.2).isOk = true

theorem valid_of_isValidPolicy {policy : List (String × List (String × Members))}
    (h : isValidPolicy policy = true) :
    (keys policy).Nodup ∧ ∀ service ∈ policy, (keys service.2).Nodup ∧
      ∀ property ∈ service.2, (keys property.2).Nodup ∧ zMetadataPolicy property.2 = .ok () := by
  rw [isValidPolicy, decide_eq_true_eq] at h
  refine ⟨h.1, fun service hservice => ⟨(h.2 service hservice).1, fun property hproperty => ?_⟩⟩
  obtain ⟨hnodup, hok⟩ := (h.2 service hservice).2 property hproperty
  cases hresult : zMetadataPolicy property.2 with
  | ok u => exact ⟨hnodup, rfl⟩
  | error e =>
    rw [hresult] at hok
    cases hok

/-- The policy claims of a statement. -/
def zPolicyStatement (claims : Members) : Option PolicyStatement := do
  let metadataPolicy ← optionally (recordOf (recordOf membersOf)) (member claims "metadata_policy")
  let metadataPolicyCrit ← optionally (listOf textOf) (member claims "metadata_policy_crit")
  if h : ∀ policy ∈ metadataPolicy, isValidPolicy policy = true then
    return {
      metadataPolicy, metadataPolicyCrit
      valid := fun policy hpolicy => valid_of_isValidPolicy (h policy hpolicy) }
  else none

def zEntityStatementClaims (schemas : ClaimSchemas) : Value → Option EntityStatementClaims
  | obj claims => do
    let iss ← textOf (member claims "iss")
    let sub ← textOf (member claims "sub")
    let iat ← zDate (member claims "iat")
    let exp ← zDate (member claims "exp")
    let jwks ← zJsonWebKeySet (member claims "jwks")
    let authorityHints ← optionally (listOf fun hint => (textOf hint).bind schemas.zHttpsUrl)
      (member claims "authority_hints")
    let metadata ← optionally schemas.zMetadata (member claims "metadata")
    let policy ← zPolicyStatement claims
    let constraints ← optionally zConstraint (member claims "constraints")
    let crit ← optionally (listOf textOf) (member claims "crit")
    let trustMarks ← optionally schemas.zTrustMarks (member claims "trust_marks")
    let trustMarkIssuers ← optionally schemas.zTrustMarkIssuer (member claims "trust_mark_issuers")
    let trustMarkOwners ← optionally schemas.zTrustMarkOwner (member claims "trust_mark_owners")
    let sourceEndpoint ← optionally (fun url => (textOf url).bind schemas.zUrl)
      (member claims "source_endpoint")
    if ((keysOf jwks).map kidOf).Nodup then
      return { iss, sub, iat, exp, jwks, authorityHints, metadata, policy, constraints, crit,
               trustMarks, trustMarkIssuers, trustMarkOwners, sourceEndpoint }
    else none
  | _ => none

def zEntityConfigurationClaims (schemas : ClaimSchemas) (data : Value) :
    Option EntityStatementClaims :=
  (zEntityStatementClaims schemas data).filter fun claims => claims.iss = claims.sub

/-- The keys of claims that are parsed. -/
theorem jwks_of_zEntityStatementClaims {schemas : ClaimSchemas} {members : Members}
    {claims : EntityStatementClaims}
    (h : zEntityStatementClaims schemas (obj members) = some claims) :
    zJsonWebKeySet (member members "jwks") = some claims.jwks := by
  obtain ⟨iss, -, h⟩ := Option.bind_eq_some_iff.mp h
  obtain ⟨sub, -, h⟩ := Option.bind_eq_some_iff.mp h
  obtain ⟨iat, -, h⟩ := Option.bind_eq_some_iff.mp h
  obtain ⟨exp, -, h⟩ := Option.bind_eq_some_iff.mp h
  obtain ⟨jwks, hjwks, h⟩ := Option.bind_eq_some_iff.mp h
  obtain ⟨authorityHints, -, h⟩ := Option.bind_eq_some_iff.mp h
  obtain ⟨metadata, -, h⟩ := Option.bind_eq_some_iff.mp h
  obtain ⟨policy, -, h⟩ := Option.bind_eq_some_iff.mp h
  obtain ⟨constraints, -, h⟩ := Option.bind_eq_some_iff.mp h
  obtain ⟨crit, -, h⟩ := Option.bind_eq_some_iff.mp h
  obtain ⟨trustMarks, -, h⟩ := Option.bind_eq_some_iff.mp h
  obtain ⟨trustMarkIssuers, -, h⟩ := Option.bind_eq_some_iff.mp h
  obtain ⟨trustMarkOwners, -, h⟩ := Option.bind_eq_some_iff.mp h
  obtain ⟨sourceEndpoint, -, h⟩ := Option.bind_eq_some_iff.mp h
  split at h
  case isTrue =>
    cases h
    exact hjwks
  case isFalse => cases h

/-- The keys of claims that are parsed are a key set. -/
theorem zJsonWebKeySet_jwks {schemas : ClaimSchemas} {data : Value} {claims : EntityStatementClaims}
    (h : zEntityStatementClaims schemas data = some claims) :
    zJsonWebKeySet claims.jwks = some claims.jwks := by
  cases data with
  | leaf l => cases h
  | arr items => cases h
  | obj members => exact settles_zJsonWebKeySet _ _ (jwks_of_zEntityStatementClaims h)

/-! ## Tokens -/

def zTyp : Schema := textWhere (· = "entity-statement+jwt")

def zEntityStatementHeader : Schema := looseObject [("kid", zString), ("typ", zTyp)]

/-- A part of a compact JWT. A part that is empty is taken to be missing. -/
def part (jwt : String) (i : ℕ) : Option String := ((split jwt '.')[i]?).filter (· ≠ "")

/-- What `zJsonWebToken` makes of a text: its header and its claims. What follows a third dot is not
looked at. -/
def zJsonWebToken {α : Type} (claimsSchema : Value → Option α) (headerSchema : Schema)
    (jwt : String) : Option (Value × α) := do
  let header ← part jwt 0
  let claims ← part jwt 1
  let signature ← part jwt 2
  let decodedHeader ← (base64urlDecodeJson header).toOption
  let decodedClaims ← (base64urlDecodeJson claims).toOption
  let _decodedSignature ← (Base64url.decode signature.toList).toOption
  let validatedHeader ← headerSchema decodedHeader
  let validatedClaims ← claimsSchema decodedClaims
  return (validatedHeader, validatedClaims)

def zEntityStatementJwt (schemas : ClaimSchemas) (jwt : String) :
    Option (Value × EntityStatementClaims) :=
  zJsonWebToken (zEntityStatementClaims schemas) zEntityStatementHeader jwt

def zEntityConfigurationJwt (schemas : ClaimSchemas) (jwt : String) :
    Option (Value × EntityStatementClaims) :=
  zJsonWebToken (zEntityConfigurationClaims schemas) zEntityStatementHeader jwt

structure JsonWebTokenParts where
  header : Value
  claims : Value
  signature : List UInt8
  signableInput : List UInt8

def orMissing (part : Option String) (message : String) : Except String String :=
  match part with
  | some text => .ok text
  | none => .error message

def parseJsonWebToken (jwt : String) : Except String JsonWebTokenParts := do
  let encodedHeader ← orMissing (part jwt 0) "could not find the header in the JWT"
  let encodedClaims ← orMissing (part jwt 1) "could not find the claims in the JWT"
  let encodedSignature ← orMissing (part jwt 2) "could not find the signature in the JWT"
  let header ← (base64urlDecodeJson encodedHeader).mapError (·.message)
  let claims ← (base64urlDecodeJson encodedClaims).mapError (·.message)
  let signature ← (Base64url.decode encodedSignature.toList).mapError (·.message)
  return {
    header, claims, signature
    signableInput := stringToBytes (encodedHeader ++ "." ++ encodedClaims) }

/-! ## Signatures -/

/-- `validate`, with the message of every failure. -/
def validate {α : Type} (result : Option α) (errorMessage : String) : Except String α :=
  match result with
  | some value => .ok value
  | none => .error errorMessage

/-- The key of the claims with the id of the header. -/
def getUsedJsonWebKey (header claims : Value) : Except String Value := do
  let validatedHeader ← validate (looseObject [("kid", zString)] header)
    "invalid header claims. Should contain a key id"
  let validatedClaims ← validate (looseObject [("jwks", zJsonWebKeySet)] claims)
    "Invalid payload claims. Should contain a json web key set"
  match (keysOf (validatedClaims.get "jwks")).find? fun key => kidOf key =
    kidOf validatedHeader with
  | some key => .ok key
  | none => .error ("key with id: '" ++ (kidOf validatedHeader).getD "" ++
      "' could not be found in the claims")

structure VerifyOptions where
  jwt : String
  header : Value
  claims : Value
  data : List UInt8
  signature : List UInt8
  jwk : Value

abbrev VerifyCallback := VerifyOptions → Except String Bool

def verifyOptions (jwt : String) (parts : JsonWebTokenParts) (jwk : Value) : VerifyOptions :=
  { jwt, header := parts.header, claims := parts.claims, data := parts.signableInput,
    signature := parts.signature, jwk }

def verifyJwtSignature (verifyJwtCallback : VerifyCallback) (jwt : String) (jwks : Option Value) :
    Except String Unit := do
  let parts ← parseJsonWebToken jwt
  let jwk ← getUsedJsonWebKey parts.header (match jwks with
    | some jwks => obj [("jwks", jwks)]
    | none => parts.claims)
  let isValid ← verifyJwtCallback (verifyOptions jwt parts jwk)
  if isValid then .ok () else .error "Signature in the JWT is invalid"

/-- The JWT has a signature of a key of the key set, the one with the id in the header. -/
def SignedBy (verifyJwtCallback : VerifyCallback) (jwt : String) (jwks : Value) : Prop :=
  ∃ parts, parseJsonWebToken jwt = .ok parts ∧ ∃ jwk ∈ keysOf jwks, (kidOf jwk).isSome ∧
  kidOf jwk = kidOf parts.header ∧
    verifyJwtCallback (verifyOptions jwt parts jwk) = .ok true

/-- What is parsed of a text is what its parts are. -/
theorem parseJsonWebToken_of_zJsonWebToken {α : Type} {claimsSchema : Value → Option α}
    {headerSchema : Schema} {jwt : String} {header : Value} {claims : α}
    (h : zJsonWebToken claimsSchema headerSchema jwt = some (header, claims)) :
    ∃ parts, parseJsonWebToken jwt = .ok parts ∧ headerSchema parts.header = some header ∧
      claimsSchema parts.claims = some claims := by
  obtain ⟨encodedHeader, hheader, h⟩ := Option.bind_eq_some_iff.mp h
  obtain ⟨encodedClaims, hclaims, h⟩ := Option.bind_eq_some_iff.mp h
  obtain ⟨encodedSignature, hsignature, h⟩ := Option.bind_eq_some_iff.mp h
  obtain ⟨decodedHeader, hdecodedHeader, h⟩ := Option.bind_eq_some_iff.mp h
  obtain ⟨decodedClaims, hdecodedClaims, h⟩ := Option.bind_eq_some_iff.mp h
  obtain ⟨signature, hdecoded, h⟩ := Option.bind_eq_some_iff.mp h
  obtain ⟨validatedHeader, hvalidated, h⟩ := Option.bind_eq_some_iff.mp h
  obtain ⟨validatedClaims, hvalidatedClaims, h⟩ := Option.bind_eq_some_iff.mp h
  cases h
  rw [toOption_eq_some] at hdecodedHeader hdecodedClaims hdecoded
  refine ⟨⟨decodedHeader, decodedClaims, signature,
    stringToBytes (encodedHeader ++ "." ++ encodedClaims)⟩, ?_, hvalidated, hvalidatedClaims⟩
  rw [parseJsonWebToken, hheader, hclaims, hsignature]
  dsimp only [orMissing]
  rw [ok_bind, ok_bind, ok_bind, mapError_eq_ok.mpr hdecodedHeader, ok_bind,
    mapError_eq_ok.mpr hdecodedClaims, ok_bind, mapError_eq_ok.mpr hdecoded]
  rfl

/-- A member of a loose object is what its schema returns. -/
theorem schema_of_looseObject {shape : List (String × Schema)} (hn : (keys shape).Nodup)
    {key : String} {schema : Schema} (hs : (key, schema) ∈ shape) (hkey : inherited key = undefined)
    {v w : Value} (h : looseObject shape v = some w) :
    ∃ members, v = obj members ∧ schema (member members key) = some (w.get key) := by
  obtain ⟨members, known, rfl, hknown, rfl⟩ := looseObject_eq_some h
  have hother : (members.filter fun m => isOther shape m.1).lookup key = none := by
    apply lookup_eq_none_iff.mpr
    intro hmem
    obtain ⟨m, hm, rfl⟩ := List.mem_map.mp hmem
    have hnot := (List.mem_filter.mp hm).2
    rw [isOther, decide_eq_true_eq] at hnot
    exact hnot.1 (mem_keys_of_mem hs)
  refine ⟨members, rfl, ?_⟩
  rw [Value.get, List.lookup_append, hother, Option.or_none, hkey]
  exact lookup_of_parseShape hn hs hknown

theorem zString_eq_some {v w : Value} (h : zString v = some w) : ∃ s, w = str s := by
  rw [zString, textWhere.eq_def] at h
  split at h
  case h_1 s =>
    rw [if_pos rfl] at h
    exact ⟨s, (Option.some.inj h).symm⟩
  case h_2 => cases h

theorem validate_eq_ok {α : Type} {result : Option α} {errorMessage : String} {value : α} :
    validate result errorMessage = .ok value ↔ result = some value := by
  cases result with
  | none => exact iff_of_false nofun nofun
  | some a => exact ⟨fun h => congrArg some (Except.ok.inj h),
      fun h => congrArg Except.ok (Option.some.inj h)⟩

theorem getUsedJsonWebKey_eq_ok {header claims jwk : Value}
    (h : getUsedJsonWebKey header claims = .ok jwk) :
    ∃ members jwks, claims = obj members ∧ zJsonWebKeySet (member members "jwks") = some jwks ∧
    jwk ∈ keysOf jwks ∧
      (kidOf jwk).isSome ∧ kidOf jwk = kidOf header := by
  obtain ⟨validatedHeader, hheader, h⟩ := bind_eq_ok.mp h
  obtain ⟨validatedClaims, hclaims, h⟩ := bind_eq_ok.mp h
  rw [validate_eq_ok] at hheader hclaims
  split at h
  case h_1 key hfind =>
    cases h
    obtain ⟨members, rfl, hjwks⟩ :=
      schema_of_looseObject (by decide) (List.mem_singleton_self _) rfl hclaims
    have hkeeps : Keeps zString := keeps_textWhere _
    have hsame := get_looseObject (by decide) (List.mem_singleton_self _) hkeeps hheader
    obtain ⟨members', rfl, hkid⟩ :=
      schema_of_looseObject (by decide) (List.mem_singleton_self _) rfl hheader
    -- the id of the header is a text
    obtain ⟨kid, hkid'⟩ := zString_eq_some hkid
    have heq : kidOf jwk = kidOf validatedHeader := by simpa using List.find?_some hfind
    refine ⟨members, _, rfl, hjwks, List.mem_of_find?_eq_some hfind, ?_, ?_⟩
    · rw [heq, kidOf, hkid']
      rfl
    · rw [heq, kidOf, hsame, kidOf]
  case h_2 => cases h

theorem verifyJwtSignature_eq_ok {verifyJwtCallback : VerifyCallback} {jwt : String}
    {jwks : Option Value} (h : verifyJwtSignature verifyJwtCallback jwt jwks = .ok ()) :
    ∃ parts members keySet, parseJsonWebToken jwt = .ok parts ∧
      (match jwks with
        | some jwks => obj [("jwks", jwks)]
        | none => parts.claims) = obj members ∧
      zJsonWebKeySet (member members "jwks") = some keySet ∧
      SignedBy verifyJwtCallback jwt keySet := by
  obtain ⟨parts, hparts, h⟩ := bind_eq_ok.mp h
  obtain ⟨jwk, hjwk, h⟩ := bind_eq_ok.mp h
  obtain ⟨isValid, hvalid, h⟩ := bind_eq_ok.mp h
  split at h
  case isTrue htrue =>
    subst htrue
    obtain ⟨members, keySet, hmembers, hset, hmem, hsome, hkid⟩ := getUsedJsonWebKey_eq_ok hjwk
    exact ⟨parts, members, keySet, hparts, hmembers, hset, parts, hparts, jwk, hmem,
      hsome, hkid, hvalid⟩
  case isFalse => cases h

/-- A signature that is verified with a key set is that of a key of the set. -/
theorem signed_of_verifyJwtSignature {verifyJwtCallback : VerifyCallback} {jwt : String}
    {jwks keySet : Value} (h : verifyJwtSignature verifyJwtCallback jwt (some jwks) = .ok ())
    (hset : zJsonWebKeySet jwks = some keySet) :
    SignedBy verifyJwtCallback jwt keySet := by
  obtain ⟨parts, members, keySet', -, hmembers, hset', hsigned⟩ := verifyJwtSignature_eq_ok h
  obtain rfl := Value.obj.inj hmembers
  rw [show member [("jwks", jwks)] "jwks" = jwks from rfl, hset] at hset'
  exact Option.some.inj hset' ▸ hsigned

/-- A signature that is verified with the claims is that of a key of the claims. -/
theorem signed_of_verifyJwtSignature_none {schemas : ClaimSchemas}
    {verifyJwtCallback : VerifyCallback} {jwt : String} {header : Value}
    {claims : EntityStatementClaims}
    (hparse : zEntityConfigurationJwt schemas jwt = some (header, claims))
    (h : verifyJwtSignature verifyJwtCallback jwt none = .ok ()) :
    SignedBy verifyJwtCallback jwt claims.jwks := by
  obtain ⟨parts, members, keySet, hparts, hmembers, hset, hsigned⟩ := verifyJwtSignature_eq_ok h
  obtain ⟨parts', hparts', -, hclaims⟩ := parseJsonWebToken_of_zJsonWebToken hparse
  cases hparts.symm.trans hparts'
  obtain ⟨hclaims, -⟩ := Option.filter_eq_some_iff.mp hclaims
  dsimp only at hmembers
  rw [hmembers] at hclaims
  rw [jwks_of_zEntityStatementClaims hclaims] at hset
  exact Option.some.inj hset ▸ hsigned

end IdentityCommon.OpenidFederation
