import IdentityCommon.SdJwt.Decode
import IdentityCommon.Ecma.Text

/-!
# JSON Web Tokens

The two signed parts of an SD-JWT: the JWT of the issuer and the key binding JWT of the holder.

## Main definitions

- `VerifierOptions` — what a verifier asks for
- `validateJwtPayload` — the checks of the registered claims
- `Jwt` — a header, a payload and a signature, with the text they were decoded from
- `Jwt.verify`, `Jwt.verifyKb` — the checks of a JWT and of a key binding JWT

## Design notes

An option that can be one string or a list of strings is a list. The clock is an argument of the
functions that read it. Sums and differences of times are exact. An error of another class is an
`SdJwtError` without a code: nothing reads more of it than its message and its code.
-/

namespace IdentityCommon.SdJwt

open Ecma Value Common

/-! ## Verification options -/

structure VerifierOptions where
  currentDate : Option Number := none
  skewSeconds : Option Number := none
  requiredClaimKeys : Option (List String) := none
  expectedAudience : Option (List String) := none
  expectedIssuer : Option (List String) := none
  expectedSubject : Option (List String) := none
  maxAgeSeconds : Option Number := none
  expectedVct : Option (List String) := none
  allowedIssuerAlgorithms : Option (List String) := none
  allowedKeyBindingAlgorithms : Option (List String) := none
  keyBindingNonce : Option String := none
  expectedKeyBindingAudience : Option (List String) := none
  keyBindingMaxAgeSeconds : Option Number := none
  skipJwtClaimValidation : Bool := false
  disableStatusVerification : Bool := false

/-- The options that concern times. -/
def getJwtTimeValidationOptions (options : VerifierOptions) : VerifierOptions :=
  { currentDate := options.currentDate, skewSeconds := options.skewSeconds }

abbrev Verifier := String → String → VerifierOptions → Except UnpackError Bool

abbrev KbVerifier := String → String → Value → Except UnpackError Bool

/-- Fails with a message and a code. -/
def throwCode {α : Type} (message code : String) : Except UnpackError α :=
  .error (.thrown { message, code := some code })

/-! ## Registered claims -/

/-- The JWT that a payload belongs to. -/
inductive JwtRole
  | jwt
  | keyBindingJwt

inductive TimeClaimFailure
  | notYetValid
  | expired
  | tooOld

def JwtRole.name : JwtRole → String
  | jwt => "JWT"
  | keyBindingJwt => "Key Binding JWT"

def JwtRole.code : JwtRole → String
  | jwt => "JWT"
  | keyBindingJwt => "KEY_BINDING_JWT"

def TimeClaimFailure.problem : TimeClaimFailure → String
  | notYetValid => "is not yet valid"
  | expired => "is expired"
  | tooOld => "is too old"

def TimeClaimFailure.code : TimeClaimFailure → String
  | notYetValid => "NOT_YET_VALID"
  | expired => "EXPIRED"
  | tooOld => "TOO_OLD"

/-- The failure of a check of a time claim. -/
def throwTimeClaim {α : Type} (role : JwtRole) (failure : TimeClaimFailure) :
    Except UnpackError α :=
  throwCode ("Verify Error: " ++ role.name ++ " " ++ failure.problem)
    (role.code ++ "_" ++ failure.code)

/-- The value of a decimal. -/
def seconds (n : Number) : ℚ := n.mantissa * (10 : ℚ) ^ n.exponent

def validateNumericDate (payload : Value) (claim : String) : Except UnpackError (Option ℚ) :=
  match payload.get claim with
  | .undefined => .ok none
  | .num value => .ok (some (seconds value))
  | _ => throwCode ("Verify Error: JWT " ++ claim ++ " must be a number") "INVALID_JWT_FORMAT"

/-- `Array.isArray(value) && value.every((item) => typeof item === 'string')`, with the strings. -/
def stringArray : Value → Option (List String)
  | .arr items => items.mapM fun item => match item with
    | .str s => some s
    | _ => none
  | _ => none

def getAudiences : Value → Option (List String)
  | .str audience => some [audience]
  | audience => stringArray audience

def validateAudience (payload : Value) : Option (List String) → Except UnpackError Unit
  | none => .ok ()
  | some expectedAudiences =>
    match getAudiences (payload.get "aud") with
    | none => throwCode "Verify Error: Invalid audience" "INVALID_AUDIENCE"
    | some audiences =>
      if expectedAudiences.any (· ∈ audiences) then .ok ()
      else throwCode "Verify Error: Invalid audience" "INVALID_AUDIENCE"

/-- A claim is a string that is one of those expected, if any are. -/
def validateExpected (claim name code : String) (payload : Value) :
    Option (List String) → Except UnpackError Unit
  | none => .ok ()
  | some expected =>
    match payload.get claim with
    | .str value => if value ∈ expected then .ok ()
        else throwCode ("Verify Error: Invalid " ++ name) code
    | _ => throwCode ("Verify Error: Invalid " ++ name) code

def validateIssuer : Value → Option (List String) → Except UnpackError Unit :=
  validateExpected "iss" "issuer" "INVALID_ISSUER"

def validateSubject : Value → Option (List String) → Except UnpackError Unit :=
  validateExpected "sub" "subject" "INVALID_SUBJECT"

def validateVct : Value → Option (List String) → Except UnpackError Unit :=
  validateExpected "vct" "VCT" "INVALID_VCT"

def validateMaxAge (role : JwtRole) (iat : Option ℚ) (currentDate skew : ℚ) :
    Option Number → Except UnpackError Unit
  | none => .ok ()
  | some maxAgeSeconds =>
    match iat with
    | none => throwCode "Verify Error: JWT iat claim is missing" "MISSING_REQUIRED_CLAIMS"
    | some iat =>
      if iat + seconds maxAgeSeconds + skew < currentDate then
        throwTimeClaim role .tooOld
      else .ok ()

/-- Fails when a condition holds. -/
def throwIf (condition : Bool) (error : Except UnpackError Unit) : Except UnpackError Unit :=
  if condition then error else .ok ()

def validateJwtPayload (payload : Value) (options : VerifierOptions) (now : Number)
    (role : JwtRole) : Except UnpackError Unit := do
  if !payload.truthy then
    throwCode "Verify Error: JWT payload is missing" "INVALID_SD_JWT"
  else do
    let skew := (options.skewSeconds.map seconds).getD 0
    let currentDate := seconds (options.currentDate.getD now)
    let iat ← validateNumericDate payload "iat"
    let nbf ← validateNumericDate payload "nbf"
    let exp ← validateNumericDate payload "exp"
    throwIf (iat.any fun iat => iat - skew > currentDate) (throwTimeClaim role .notYetValid)
    throwIf (nbf.any fun nbf => nbf - skew > currentDate) (throwTimeClaim role .notYetValid)
    throwIf (exp.any fun exp => exp + skew ≤ currentDate) (throwTimeClaim role .expired)
    validateMaxAge role iat currentDate skew options.maxAgeSeconds
    validateAudience payload options.expectedAudience
    validateIssuer payload options.expectedIssuer
    validateSubject payload options.expectedSubject
    validateVct payload options.expectedVct

/-! ## JWTs -/

structure Jwt where
  header : Option Value := none
  payload : Option Value := none
  signature : Option String := none
  encoded : Option String := none

/-- A string that is there and not empty. -/
def nonEmpty (s : Option String) : Option String := s.filter (· ≠ "")

/-- The base64url form of the JSON text of a value. -/
def encodeValue (v : Value) : String := base64urlEncode (String.ofList ((Json.stringify v).getD []))

/-- The header, the payload and the signature of a JWT. -/
def decodeJwt (jwt : String) : Except UnpackError (Value × Value × String) :=
  match split jwt '.' with
  | [header, payload, signature] =>
    match base64urlDecodeJson header, base64urlDecodeJson payload with
    | .ok header, .ok payload => .ok (header, payload, signature)
    | _, _ => throwSdJwt "Invalid JWT as input"
  | _ => throwSdJwt "Invalid JWT as input"

namespace Jwt

def fromEncode (encodedJwt : String) : Except UnpackError Jwt := do
  let (header, payload, signature) ← decodeJwt encodedJwt
  .ok { header, payload, signature, encoded := encodedJwt }

/-- The header or the payload, if it is there and not falsy. -/
def part (v : Option Value) : Option Value := v.filter truthy

def getUnsignedToken (jwt : Jwt) : Except UnpackError String :=
  match part jwt.header, part jwt.payload with
  | some header, some payload =>
    match nonEmpty jwt.encoded with
    | some encoded =>
      let parts := split encoded '.'
      if parts.length ≠ 3 then throwCode ("Invalid JWT format: " ++ encoded) "INVALID_JWT_FORMAT"
      else .ok (join (parts.take 2) '.')
    | none => .ok (encodeValue header ++ "." ++ encodeValue payload)
  | _, _ => throwSdJwt "Serialize Error: Invalid JWT"

/-- The compact form, and the JWT that has stored it. -/
def encodeJwt (jwt : Jwt) : Except UnpackError (String × Jwt) :=
  match nonEmpty jwt.encoded with
  | some encoded => .ok (encoded, jwt)
  | none =>
    match part jwt.header, part jwt.payload, nonEmpty jwt.signature with
    | some header, some payload, some signature =>
      let compact := encodeValue header ++ "." ++ encodeValue payload ++ "." ++ signature
      .ok (compact, { jwt with encoded := compact })
    | _, _, _ => throwSdJwt "Serialize Error: Invalid JWT"

/-- The JWT with a signature over its unsigned form. -/
def sign (jwt : Jwt) (signer : String → Except UnpackError String) : Except UnpackError Jwt :=
  match part jwt.header with
  | none => throwSdJwt "Sign Error: alg \"none\" is not allowed"
  | some header => match header.get "alg" with
    | .str "none" => throwSdJwt "Sign Error: alg \"none\" is not allowed"
    | _ => do
      let data ← jwt.getUnsignedToken
      let signature ← signer data
      let (_, jwt) ← { jwt with signature := some signature : Jwt }.encodeJwt
      .ok jwt

/-- `header && 'crit' in header`, for a header with an algorithm. -/
def hasCrit : Option Value → Bool
  | some (.obj members) => hasName "crit" members
  | _ => false

/-- The algorithm of a JWT, which is not `none`. -/
def alg (jwt : Jwt) : Option String :=
  match (jwt.header.getD undefined).get "alg" with
  | .str alg => if alg = "none" then none else some alg
  | _ => none

/-- The payload and the header of a JWT whose signature is valid. -/
def verify (jwt : Jwt) (verifier : Verifier) (options : VerifierOptions) (now : Number) :
    Except UnpackError (Option Value × Option Value) :=
  match jwt.alg with
  | none => throwCode "Verify Error: alg \"none\" is not allowed" "INVALID_JWT_SIGNATURE"
  | some alg =>
    if options.allowedIssuerAlgorithms.any (alg ∉ ·) then
      throwCode ("Verify Error: Disallowed alg " ++ alg) "INVALID_JWT_SIGNATURE"
    else if hasCrit jwt.header then
      throwCode "Verify Error: unsupported critical header parameters" "INVALID_JWT_SIGNATURE"
    else do
      if options.skipJwtClaimValidation then .ok ()
      else validateJwtPayload (jwt.payload.getD undefined) options now .jwt
      match nonEmpty jwt.signature with
      | none => throwCode "Verify Error: no signature in JWT" "INVALID_JWT_SIGNATURE"
      | some signature => do
        let data ← jwt.getUnsignedToken
        if ← verifier data signature options then .ok (jwt.payload, jwt.header)
        else throwCode "Verify Error: Invalid JWT Signature" "INVALID_JWT_SIGNATURE"

/-- `isJwtTyp(value, typ)`: the type in any casing, also with the prefix `application/`. -/
def isJwtTyp (value : Value) (typ : String) : Bool :=
  match value with
  | .str value => normalize value = normalize typ
  | _ => false
where
  normalize (type : String) : String :=
    let type := toLowerCase type
    if "application/".toList.isPrefixOf type.toList then
      String.ofList (type.toList.drop 12)
    else type

/-- The payload and the header of a key binding JWT that passes the checks. -/
def verifyKb (jwt : Jwt) (verifier : KbVerifier) (payload : Value) (nonce : String)
    (options : VerifierOptions) (now : Number) : Except UnpackError (Value × Value) :=
  match part jwt.header, part jwt.payload, nonEmpty jwt.signature with
  | some kbHeader, some kbPayload, some _ =>
    match jwt.alg, kbPayload.get "iat", kbPayload.get "aud", kbPayload.get "nonce",
      kbPayload.get "sd_hash" with
    | some alg, .num iat, .str aud, .str kbNonce, .str sd_hash =>
      if !isJwtTyp (kbHeader.get "typ") KB_JWT_TYP || sd_hash = "" then
        throwSdJwt "Invalid Key Binding Jwt"
      else if options.allowedKeyBindingAlgorithms.any (alg ∉ ·) then
        throwSdJwt ("Verify Error: Disallowed Key Binding alg " ++ alg)
      else if hasCrit jwt.header then
        throwSdJwt "Verify Error: unsupported critical header parameters in Key Binding JWT"
      else if kbNonce ≠ nonce then throwSdJwt "Verify Error: Invalid Nonce"
      else if options.expectedKeyBindingAudience.any (aud ∉ ·) then
        throwSdJwt "Verify Error: Invalid Key Binding audience"
      else do
        let currentDate := seconds (options.currentDate.getD now)
        let skew := (options.skewSeconds.map seconds).getD 0
        throwIf (options.keyBindingMaxAgeSeconds.any fun maxAge =>
          seconds iat + seconds maxAge + skew < currentDate) (throwTimeClaim .keyBindingJwt .tooOld)
        validateJwtPayload kbPayload (getJwtTimeValidationOptions options) now .keyBindingJwt
        let _ ← jwt.verify (fun data sig _ => verifier data sig payload)
            { skipJwtClaimValidation := true } now
        .ok (kbPayload, kbHeader)
    | _, _, _, _, _ => throwSdJwt "Invalid Key Binding Jwt"
  | _, _, _ => throwSdJwt "Verify Error: Invalid JWT"

end Jwt

end IdentityCommon.SdJwt
