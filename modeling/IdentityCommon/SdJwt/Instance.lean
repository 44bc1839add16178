import IdentityCommon.SdJwt.SdJwt

/-!
# Issuers, holders and verifiers

`SdJwtInstance`: what a verifier checks of an SD-JWT, failing at the first error or collecting all
of them, and how a holder presents one.

## Main definitions

- `SdJwtConfig` — the callbacks and the algorithms that are configured
- `SdJwtInstance.validate`, `SdJwtInstance.verify` — verification that fails at the first error
- `SdJwtInstance.safeVerify` — verification that collects the errors
- `SdJwtInstance.present` — a presentation, with a key binding JWT when one is asked for
-/

namespace IdentityCommon.SdJwt

open Ecma Value AssocList

abbrev Signer := String → Except UnpackError String

structure SdJwtConfig where
  hasher : Option Hasher := none
  verifier : Option Verifier := none
  kbVerifier : Option KbVerifier := none
  kbSigner : Option Signer := none
  kbSignAlg : Option String := none

/-- The names that no claim may have. -/
def reservedFields : List String := [SD_DIGEST, "_sd_alg", SD_DECOY, SD_LIST_KEY]

mutual

/-- The first reserved name in a value. -/
def reservedName : Value → Option String
  | .obj members => reservedInMembers members
  | .arr items => reservedInItems items
  | _ => none

def reservedInMembers : List (String × Value) → Option String
  | [] => none
  | (key, value) :: members =>
    if key ∈ reservedFields then some key
    else match reservedName value with
      | some key => some key
      | none => reservedInMembers members

def reservedInItems : List Value → Option String
  | [] => none
  | value :: items =>
    match reservedName value with
    | some key => some key
    | none => reservedInItems items

end

def validateReservedFieldsInternal (payload : Value) : Except UnpackError Unit :=
  match reservedName payload with
  | some key => throwSdJwt ("Reserved field name \"" ++ key ++ "\" is not allowed")
  | none => .ok ()

/-- What verification returns. -/
structure Verified where
  payload : Value
  header : Option Value
  kb : Option (Value × Value) := none

structure VerificationError where
  code : String
  message : String

/-- The message and the code of an error. -/
def errorOf : UnpackError → SdJwtError
  | .thrown e => e
  | .outOfFuel => { message := "" }

namespace SdJwtInstance

variable (config : SdJwtConfig) (now : Number)

def requireHasher : Except UnpackError Hasher :=
  match config.hasher with
  | some hasher => .ok hasher
  | none => throwSdJwt "Hasher not found"

def verifyJwt (jwt : Jwt) (options : VerifierOptions) :
    Except UnpackError (Option Value × Option Value) :=
  match config.verifier with
  | none => throwCode "Verifier not found" "VERIFIER_NOT_FOUND"
  | some verifier => jwt.verify verifier options now

def calculateSdHash (presentSdJwtWithoutKb : String) (sdjwt : SdJwt) (hasher : Hasher) :
    Except UnpackError String :=
  match sdjwt.jwt.bind fun jwt => Jwt.part jwt.payload with
  | none => throwSdJwt "Invalid SD JWT"
  | some payload => do
    let (_sd_alg, _) ← getSdAlgAndPayload (ownMembers payload)
    .ok (uint8ArrayToBase64Url (hasher presentSdJwtWithoutKb _sd_alg))

/-! ## Verification -/

/-- The claims of an SD-JWT whose signature and whose claims are valid, with the header. -/
def validate (encodedSdJwt : String) (options : VerifierOptions) :
    Except UnpackError (Value × Option Value) := do
  let hasher ← requireHasher config
  let sdjwt ← SdJwt.fromEncode encodedSdJwt hasher
  match sdjwt.jwt with
  | none => throwSdJwt "Invalid SD JWT"
  | some jwt =>
    let (_, header) ← verifyJwt config now jwt { options with skipJwtClaimValidation := true }
    let claims ← sdjwt.getClaims hasher
    validateReservedFieldsInternal claims
    validateJwtPayload claims options now .jwt
    .ok (claims, header)

/-- The required claim keys that are missing. -/
def missingKeys (sdjwt : SdJwt) (hasher : Hasher) (requiredClaimKeys : List String) :
    Except UnpackError (List String) := do
  let keys ← sdjwt.keys hasher
  .ok (requiredClaimKeys.filter (· ∉ keys))

/-- The SD-JWT without its key binding JWT. -/
def withoutKb (sdjwt : SdJwt) : SdJwt := { jwt := sdjwt.jwt, disclosures := sdjwt.disclosures }

/-- The SD hash that a key binding JWT has to have. -/
def sdHash (sdjwt : SdJwt) (hasher : Hasher) : Except UnpackError String := do
  let presentSdJwtWithoutKb ← (withoutKb sdjwt).encodeSdJwt
  calculateSdHash presentSdJwtWithoutKb sdjwt hasher

def requireClaims (sdjwt : SdJwt) (hasher : Hasher) (options : VerifierOptions) :
    Except UnpackError Unit :=
  match options.requiredClaimKeys with
  | none => .ok ()
  | some requiredClaimKeys => do
    let missing ← missingKeys sdjwt hasher requiredClaimKeys
    throwIf (missing ≠ [])
      (throwSdJwt ("Missing required claim keys: " ++ ", ".intercalate missing))

/-- The key binding, if there is a nonce for it. -/
def verifyKeyBinding (sdjwt : SdJwt) (payload : Value) (hasher : Hasher)
    (options : VerifierOptions) : Except UnpackError (Option (Value × Value)) :=
  match nonEmpty options.keyBindingNonce with
  | none => .ok none
  | some nonce =>
    match sdjwt.kbJwt with
    | none => throwSdJwt "Key Binding JWT not exist"
    | some kbJwt =>
      match config.kbVerifier with
      | none => throwSdJwt "Key Binding Verifier not found"
      | some kbVerifier => do
        let kb ← kbJwt.verifyKb kbVerifier payload nonce options now
        let sdHashStr ← sdHash sdjwt hasher
        match kb.1.get "sd_hash" with
        | .str sdHashFromKb =>
          if sdHashStr = sdHashFromKb then .ok (some kb)
          else throwSdJwt "Invalid sd_hash in Key Binding JWT"
        | _ => throwSdJwt "Invalid sd_hash in Key Binding JWT"

/-- The verification of a class with its own `validate`. -/
def verifyWith (validate : String → VerifierOptions → Except UnpackError (Value × Option Value))
    (encodedSdJwt : String) (options : VerifierOptions) : Except UnpackError Verified := do
  let hasher ← requireHasher config
  let sdjwt ← SdJwt.fromEncode encodedSdJwt hasher
  match sdjwt.jwt.bind fun jwt => Jwt.part jwt.payload with
  | none => throwSdJwt "Invalid SD JWT"
  | some _ => do
    let (payload, header) ← validate encodedSdJwt options
    requireClaims sdjwt hasher options
    let kb ← verifyKeyBinding config now sdjwt payload hasher options
    .ok { payload, header, kb }

def verify (encodedSdJwt : String) (options : VerifierOptions) : Except UnpackError Verified :=
  verifyWith config now (validate config now) encodedSdJwt options

/-! ## Verification that collects the errors -/

/-- The code of an error, where it has one. -/
def exceptionToCode (e : UnpackError) (default : String) : String :=
  (nonEmpty (errorOf e).code).getD default

/-- The SD-JWT, or why it cannot be decoded. -/
def decodeSafely (encodedSdJwt : String) (hasher : Hasher) :
    Option SdJwt × List VerificationError :=
  match SdJwt.fromEncode encodedSdJwt hasher with
  | .ok sdjwt =>
    (some sdjwt, if (sdjwt.jwt.bind fun jwt => Jwt.part jwt.payload).isSome then []
      else [⟨"INVALID_SD_JWT", "Invalid SD JWT: missing JWT or payload"⟩])
  | .error e => (none, [⟨"INVALID_SD_JWT", "Failed to decode SD-JWT: " ++ (errorOf e).message⟩])

/-- The header once the signature is valid, the claims once the disclosures are processed, and what
fails first. -/
def validateSafely (sdjwt : SdJwt) (hasher : Hasher) (options : VerifierOptions) :
    Option Value × Option Value × List VerificationError :=
  match sdjwt.jwt with
  | none => (none, none, [])
  | some jwt =>
    let report e := [⟨exceptionToCode e "UNKNOWN_ERROR", (errorOf e).message⟩]
    match verifyJwt config now jwt { options with skipJwtClaimValidation := true } with
    | .error e => (none, none, report e)
    | .ok (_, header) =>
      match sdjwt.getClaims hasher with
      | .error e => (header, none, report e)
      | .ok claims =>
        match validateJwtPayload claims options now .jwt with
        | .error e => (header, some claims, report e)
        | .ok () => (header, some claims, [])

def requiredSafely (sdjwt : SdJwt) (hasher : Hasher) (options : VerifierOptions) :
    List VerificationError :=
  match options.requiredClaimKeys with
  | none => []
  | some requiredClaimKeys =>
    match missingKeys sdjwt hasher requiredClaimKeys with
    | .ok [] => []
    | .ok missing =>
      [⟨"MISSING_REQUIRED_CLAIMS", "Missing required claim keys: " ++ ", ".intercalate missing⟩]
    | .error e => [⟨"UNKNOWN_ERROR", "Failed to check required claims: " ++ (errorOf e).message⟩]

/-- The key binding, if it is asked for, and why it is not valid. -/
def keyBindingSafely (sdjwt : SdJwt) (payload : Option Value) (hasher : Hasher)
    (options : VerifierOptions) : Option (Value × Value) × List VerificationError :=
  match nonEmpty options.keyBindingNonce with
  | none => (none, [])
  | some nonce =>
    match sdjwt.kbJwt with
    | none => (none, [⟨"KEY_BINDING_JWT_MISSING", "Key Binding JWT not exist"⟩])
    | some kbJwt =>
      match config.kbVerifier with
      | none => (none, [⟨"KEY_BINDING_VERIFIER_NOT_FOUND", "Key Binding Verifier not found"⟩])
      | some kbVerifier =>
        match payload with
        | none => (none, [])
        | some payload =>
          let report e := [⟨exceptionToCode e "KEY_BINDING_SIGNATURE_INVALID",
            "Key binding verification failed: " ++ (errorOf e).message⟩]
          match kbJwt.verifyKb kbVerifier payload nonce options now with
          | .error e => (none, report e)
          | .ok kb =>
            match sdHash sdjwt hasher with
            | .error e => (some kb, report e)
            | .ok sdHashStr =>
              match kb.1.get "sd_hash" with
              | .str sdHashFromKb =>
                (some kb, if sdHashStr = sdHashFromKb then []
                  else [⟨"KEY_BINDING_SD_HASH_INVALID", "Invalid sd_hash in Key Binding JWT"⟩])
              | _ => (some kb, [⟨"KEY_BINDING_SD_HASH_INVALID",
                  "Invalid sd_hash in Key Binding JWT"⟩])

def safeVerify (encodedSdJwt : String) (options : VerifierOptions) :
    Except (List VerificationError) Verified :=
  match config.hasher, config.verifier with
  | some hasher, some _ =>
    match decodeSafely encodedSdJwt hasher with
    | (none, errors) => .error errors
    | (some sdjwt, errors) =>
      let (header, payload, errors') := validateSafely config now sdjwt hasher options
      let (kb, errors'') := keyBindingSafely config now sdjwt payload hasher options
      match errors ++ errors' ++ requiredSafely sdjwt hasher options ++ errors'' with
      | [] => .ok { payload := payload.getD undefined, header, kb }
      | errors => .error errors
  | none, some _ => .error [⟨"HASHER_NOT_FOUND", "Hasher not found"⟩]
  | some _, none => .error [⟨"VERIFIER_NOT_FOUND", "Verifier not found"⟩]
  | none, none =>
    .error [⟨"HASHER_NOT_FOUND", "Hasher not found"⟩, ⟨"VERIFIER_NOT_FOUND", "Verifier not found"⟩]

/-! ## Presentation -/

/-- The key binding JWT over a hash, for the payload that the holder gives. -/
def createKbJwt (payload : List (String × Value)) (sdHash : String) : Except UnpackError Jwt :=
  match config.kbSigner, nonEmpty config.kbSignAlg with
  | none, _ => throwSdJwt "Key Binding Signer not found"
  | some _, none => throwSdJwt "Key Binding sign algorithm not specified"
  | some kbSigner, some alg =>
    Jwt.sign {
      header := some (.obj [("typ", .str KB_JWT_TYP), ("alg", .str alg)])
      payload := some (.obj (insert "sd_hash" (.str sdHash) payload)) } kbSigner

/-- The presentation of an SD-JWT, with a key binding JWT for the payload `kb`. -/
def present (encodedSdJwt : String) (presentationFrame : Option Value)
    (kb : Option (List (String × Value))) : Except UnpackError String := do
  let hasher ← requireHasher config
  let sdjwt ← SdJwt.fromEncode encodedSdJwt hasher
  if sdjwt.kbJwt.isSome then throwSdJwt "Holder cannot present an SD-JWT with KB-JWT"
  else match sdjwt.jwt.bind fun jwt => Jwt.part jwt.payload with
    | none => throwSdJwt "Payload not found"
    | some _ => do
      let presentSdJwtWithoutKb ← sdjwt.present presentationFrame hasher
      match kb with
      | none => .ok presentSdJwtWithoutKb
      | some kb => do
        let sdHashStr ← calculateSdHash presentSdJwtWithoutKb sdjwt hasher
        let kbJwt ← createKbJwt config kb sdHashStr
        { sdjwt with kbJwt := some kbJwt : SdJwt }.present presentationFrame hasher

end SdJwtInstance

end IdentityCommon.SdJwt
