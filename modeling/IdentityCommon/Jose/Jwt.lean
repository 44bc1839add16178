import IdentityCommon.Jose.JwtClaims
import IdentityCommon.Jose.ParseJws
import IdentityCommon.Jose.VerifyJws
import IdentityCommon.SdJwt.Jwt

/-!
# JWTs

A JWT that is decoded with schemas for its header and its payload, and verified: its signature, and
then its claims.

## Main definitions

- `zJwtPayload`, `zJwtConfirmation` — the registered claims
- `decodeJwt` — the header and the payload, validated against the registered schemas and those of
  the caller
- `verifyJwt` — the signer of a JWT whose signature and whose claims are verified

## Main results

- `exact_zStringOrUri`, `exact_zNumericDate`, `exact_union` — claims that the schemas return as they
  are
- `decodeJwt_eq_ok` — what the header and the payload of a JWT are read from
- `verifyJwt_eq_ok` — what is verified
-/

namespace IdentityCommon.Jose

open Ecma AssocList Value Common IdentityCommon.Except

/-! ## Schemas -/

/-- `z.string()`. -/
def zStringOrUri : Schema
  | str s => some (str s)
  | _ => none

/-- `z.number()`, which accepts finite numbers. -/
def zNumericDate : Schema
  | num n => if (Double.ofNumber n).isFinite then some (num n) else none
  | _ => none

/-- `z.union([a, b])`. -/
def union (a b : Schema) : Schema := fun value => (a value).or (b value)

/-- `z.record(z.string(), z.unknown())`. -/
def zRecord : Schema
  | obj members => some (obj (members.filter (·.1 ≠ "__proto__")))
  | _ => none

/-- `zTyp(expected)`. -/
def zTyp (expected : String) : Schema :=
  fun typ => if SdJwt.Jwt.isJwtTyp typ expected then some typ else none

/-- `{ ...shape, ...members }`. -/
def overrideShape (shape members : List (String × Schema)) : List (String × Schema) :=
  members.foldl (fun shape m => insert m.1 m.2 shape) shape

/-- Not `undefined`. -/
def isDefined (value : Value) : Bool := (definedOf value).isSome

/-- A confirmation names its key in one way only. -/
def isConfirmation (cnf : Value) : Bool :=
  (["jwk", "jwe", "jku", "jkt"].filter fun member => isDefined (cnf.get member)).length ≤ 1 &&
    (!isDefined (cnf.get "kid") || !isDefined (cnf.get "jwk") && !isDefined (cnf.get "jwe"))

def zJwtConfirmation : Schema :=
  refine (looseObject [("jwk", optional zPublicJwk), ("jkt", optional zNonEmptyBase64Url),
    ("kid", optional zNonEmptyString)]) isConfirmation

/-- The thumbprint in a confirmation, if there is one, is a text that is not empty. -/
theorem jkt_zJwtConfirmation {v w : Value} (h : zJwtConfirmation v = some w) :
    w.get "jkt" = undefined ∨ ∃ s, w.get "jkt" = str s ∧ s ≠ "" := by
  rcases get_optional (by decide) (.tail _ (.head _)) rfl
    (Option.filter_eq_some_iff.mp h).1 with habsent | ⟨u, hu⟩
  · exact .inl habsent
  · unfold zNonEmptyBase64Url at hu
    split at hu
    · split_ifs at hu with hs
      exact .inr ⟨_, (Option.some.inj hu).symm, hs.2⟩
    · cases hu

def jwtPayloadShape : List (String × Schema) :=
  [("iss", optional zStringOrUri), ("sub", optional zStringOrUri),
    ("aud", optional (union zStringOrUri (array zStringOrUri))), ("exp", optional zNumericDate),
    ("nbf", optional zNumericDate), ("iat", optional zNumericDate),
      ("jti", optional zNonEmptyString),
    ("nonce", optional zNonEmptyString), ("cnf", optional zJwtConfirmation),
      ("status", optional zRecord),
    ("trust_chain", optional (nonEmptyArray zNonEmptyString))]

def zJwtPayload : Schema := looseObject jwtPayloadShape

/-- `zCompactJwt`. -/
def isCompactJwt (jwt : String) : Bool :=
  let parts := split jwt '.'
  parts.length = 3 && parts.all fun part => part ≠ "" && isBase64Url part

theorem exact_zStringOrUri : Exact zStringOrUri := by
  intro v w h
  unfold zStringOrUri at h
  split at h
  · cases h
    exact ⟨rfl, .leaf rfl⟩
  · cases h

theorem exact_zNumericDate : Exact zNumericDate := by
  intro v w h
  unfold zNumericDate at h
  split at h
  · split_ifs at h
    cases h
    exact ⟨rfl, .leaf rfl⟩
  · cases h

theorem exact_union {a b : Schema} (ha : Exact a) (hb : Exact b) : Exact (union a b) := by
  intro v w h
  rcases Option.or_eq_some_iff.mp h with h | ⟨-, h⟩
  · exact ha v w h
  · exact hb v w h

/-! ## Decoding -/

/-- `parseJws` with a schema for the protected header. -/
def parseJwsWith (protectedHeaderSchema : Schema) (options : ParseJwsOptions) :
    Except JoseError (Value × ParsedJws) := do
  let parts ← compactJwsParts options.jws
  assertProtectedHeader parts.encodedProtectedHeader
  let protectedHeaderJson ← decodeBase64UrlJsonObject parts.encodedProtectedHeader
    "JWS protected header"
  let registeredHeader ← parseHeader zJwsProtectedHeader "Invalid JWS protected header"
    protectedHeaderJson
  let protectedHeader ← parseHeader protectedHeaderSchema "Invalid JWS protected header"
    protectedHeaderJson
  assertCriticalHeaderParameters registeredHeader none options.understoodCriticalParameters
  let isBase64UrlEncoded ← isPayloadBase64UrlEncoded registeredHeader
  assertSerializedPayload isBase64UrlEncoded parts.serializedPayload
  let (payload, encodedPayload) ← resolvePayload parts.serializedPayload options.detachedPayload
    isBase64UrlEncoded
  return (protectedHeader, {
    protectedHeader := registeredHeader, encodedProtectedHeader := parts.encodedProtectedHeader,
      payload, encodedPayload
    signature := parts.signature, signingInput := join [parts.encodedProtectedHeader,
      encodedPayload] '.'
    compact := parts.compact })

structure DecodeJwtOptions where
  jwt : String
  headerSchema : Schema := zJwsProtectedHeader
  payloadSchema : Schema := zJwtPayload
  understoodCriticalParameters : List String := []

structure DecodedJwt where
  header : Value
  payload : Value
  registeredHeader : Value
  registeredPayload : Value
  payloadBytes : List UInt8
  signature : String
  signingInput : String
  compact : String

def assertEncodedPayload (jws : ParsedJws) : Except JoseError Unit :=
  match jws.protectedHeader.get "b64" with
  | .leaf (.bool false) =>
    .error (.notSupported
      ("Unable to decode the JWT, its header sets 'b64' to false. An unencoded payload is not " ++
       "valid for a JWT."))
  | _ =>
    if jws.encodedPayload = "" then
      .error (.parse "Unable to decode the JWT, it does not contain a payload")
    else .ok ()

def decodeJwt (options : DecodeJwtOptions) : Except JoseError DecodedJwt := do
  let (header, jws) ← parseJwsWith options.headerSchema {
    jws := options.jwt, understoodCriticalParameters := options.understoodCriticalParameters }
  assertEncodedPayload jws
  let payloadJson ← decodeBase64UrlJsonObject jws.encodedPayload "JWT payload"
  let registeredPayload ← parseHeader zJwtPayload "Invalid JWT payload" payloadJson
  let payload ← parseHeader options.payloadSchema "Invalid JWT payload" payloadJson
  return {
    header, payload, registeredHeader := jws.protectedHeader, registeredPayload,
    payloadBytes := jws.payload
    signature := jws.signature, signingInput := jws.signingInput, compact := options.jwt }

theorem parseHeader_eq_ok {schema : Schema} {message : String} {value result : Value}
    (h : parseHeader schema message value = .ok result) : schema value = some result := by
  unfold parseHeader at h
  split at h
  · next heq =>
    cases h
    exact heq
  · cases h

/-- The header and the payload of a JWT are each read once, and validated against two schemas. -/
structure DecodedFrom (options : DecodeJwtOptions) (jwt : DecodedJwt)
    (headerJson payloadJson : Value) : Prop where
  registeredHeader : zJwsProtectedHeader headerJson = some jwt.registeredHeader
  header : options.headerSchema headerJson = some jwt.header
  registeredPayload : zJwtPayload payloadJson = some jwt.registeredPayload
  payload : options.payloadSchema payloadJson = some jwt.payload
  compact : jwt.compact = options.jwt

theorem isJson_of_decodeBase64UrlJsonObject {encoded name : String} {value : Value}
    (h : decodeBase64UrlJsonObject encoded name = .ok value) : value.IsJson := by
  unfold decodeBase64UrlJsonObject at h
  split at h
  · next members hdecode =>
    cases h
    exact isJson_of_decodeJson hdecode
  · cases h
  · cases h

/-- The header and the payload are each JSON, read once and validated against two schemas. -/
theorem exists_decodedFrom {options : DecodeJwtOptions} {jwt : DecodedJwt}
    (h : decodeJwt options = .ok jwt) :
    ∃ headerJson payloadJson, payloadJson.IsJson ∧
    DecodedFrom options jwt headerJson payloadJson := by
  obtain ⟨⟨header, jws⟩, hjws, h⟩ := bind_eq_ok.mp h
  obtain ⟨_, _, h⟩ := bind_eq_ok.mp h
  obtain ⟨payloadJson, hpayloadJson, h⟩ := bind_eq_ok.mp h
  obtain ⟨registeredPayload, hregisteredPayload, h⟩ := bind_eq_ok.mp h
  obtain ⟨payload, hpayload, h⟩ := bind_eq_ok.mp h
  cases h
  obtain ⟨_, _, hjws⟩ := bind_eq_ok.mp hjws
  obtain ⟨_, _, hjws⟩ := bind_eq_ok.mp hjws
  obtain ⟨headerJson, _, hjws⟩ := bind_eq_ok.mp hjws
  obtain ⟨registeredHeader, hregisteredHeader, hjws⟩ := bind_eq_ok.mp hjws
  obtain ⟨protectedHeader, hprotectedHeader, hjws⟩ := bind_eq_ok.mp hjws
  obtain ⟨_, _, hjws⟩ := bind_eq_ok.mp hjws
  obtain ⟨_, _, hjws⟩ := bind_eq_ok.mp hjws
  obtain ⟨_, _, hjws⟩ := bind_eq_ok.mp hjws
  obtain ⟨_, _, hjws⟩ := bind_eq_ok.mp hjws
  cases hjws
  exact ⟨headerJson, payloadJson, isJson_of_decodeBase64UrlJsonObject hpayloadJson,
    parseHeader_eq_ok hregisteredHeader, parseHeader_eq_ok hprotectedHeader,
      parseHeader_eq_ok hregisteredPayload, parseHeader_eq_ok hpayload, rfl⟩

theorem decodeJwt_eq_ok {options : DecodeJwtOptions} {jwt : DecodedJwt}
    (h : decodeJwt options = .ok jwt) :
    ∃ headerJson payloadJson, DecodedFrom options jwt headerJson payloadJson := by
  obtain ⟨headerJson, payloadJson, -, hdecoded⟩ := exists_decodedFrom h
  exact ⟨headerJson, payloadJson, hdecoded⟩

/-! ## Verifying -/

inductive VerifyJwtError
  | signature (error : VerificationError)
  | claims (message : String) (error : JwtClaimsError)

structure VerifyJwtOptions where
  jwt : DecodedJwt
  claims : VerifyJwtClaimsOptions
  signer : Option JwsSigner := none
  allowedSignerMethods : Option (List String) := none
  allowMultipleSignerMethods : Bool := false
  allowDidKidIssuerMismatch : Bool := false
  allowedAlgorithms : Option (List String) := none
  allowSymmetricAlgorithms : Bool := false
  errorMessage : String := "Error during verification of the JWT."

/-- What the callback is handed for a JWT. -/
def DecodedJwt.context (jwt : DecodedJwt) : VerifyJwsContext where
  signingInput := jwt.signingInput
  protectedHeader := jwt.registeredHeader
  payload := jwt.payloadBytes
  jwtPayload := jwt.registeredPayload
  signature := jwt.signature
  compact := jwt.compact

def VerifyJwtOptions.signatureOptions (options : VerifyJwtOptions) : VerifyJwsSignatureOptions where
  context := options.jwt.context
  signer := options.signer
  allowedSignerMethods := options.allowedSignerMethods
  allowMultipleSignerMethods := options.allowMultipleSignerMethods
  allowDidKidIssuerMismatch := options.allowDidKidIssuerMismatch
  allowedAlgorithms := options.allowedAlgorithms
  allowSymmetricAlgorithms := options.allowSymmetricAlgorithms
  errorMessage := options.errorMessage

def verifyJwt (verifyJws : VerifyJwsCallback) (options : VerifyJwtOptions) :
    Except VerifyJwtError VerifiedSigner := do
  let signer ← (verifyJwsSignature verifyJws options.signatureOptions).mapError .signature
  (verifyJwtClaims options.jwt.registeredPayload options.claims).mapError
    (.claims options.errorMessage)
  return signer

/-- A JWT that is verified has a signature that the callback accepted, for the signer to verify
against if there is one, and claims that pass their checks. -/
theorem verifyJwt_eq_ok {verifyJws : VerifyJwsCallback} {options : VerifyJwtOptions}
    {result : VerifiedSigner} (h : verifyJwt verifyJws options = .ok result) :
    Accepts verifyJws result.signer options.jwt.context result.publicJwk ∧
      signerOf options.signatureOptions = .ok result.signer ∧ options.claims.Usable ∧
        ClaimsOk options.jwt.registeredPayload options.claims := by
  obtain ⟨signer, hsigner, h⟩ := bind_eq_ok.mp h
  obtain ⟨_, hclaims, h⟩ := bind_eq_ok.mp h
  cases h
  obtain ⟨haccepts, hsignerOf⟩ := verifyJwsSignature_eq_ok (mapError_eq_ok.mp hsigner)
  obtain ⟨husable, hok⟩ := verifyJwtClaims_eq_ok.mp (mapError_eq_ok.mp hclaims)
  exact ⟨haccepts, hsignerOf, husable, hok⟩

end IdentityCommon.Jose
