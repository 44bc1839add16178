import IdentityCommon.Jose.Algorithms

/-!
# Verifying a JWS

The signer that a header identifies, and the signature of a JWS, which a callback verifies.

## Main definitions

- `jwsSignerFromHeader` — the signer of a header, where it is identified in one way
- `VerifyJwsContext`, `VerifyJwsCallback` — what is handed to the callback, and the callback
- `verifyJwsSignature` — the signer and the key of a signature that is verified

## Main results

- `verifyJwsSignature_eq_ok` — the callback accepted the signature for the signer that is returned
-/

namespace IdentityCommon.Jose

open Ecma Value Common IdentityCommon.Except

/-! ## Signers -/

inductive FoundSigner
  | valid (signer : JwsSigner)
  | invalid (method error : String)

namespace FoundSigner

def method : FoundSigner → String
  | valid signer => signer.method
  | invalid method _ => method

def signer? : FoundSigner → Option JwsSigner
  | valid signer => some signer
  | invalid .. => none

def report : FoundSigner → String
  | valid signer => "SUCCEEDED: method " ++ signer.method
  | invalid method error => "FAILED: method " ++ method ++ " - " ++ error

end FoundSigner

structure JwsSignerFromHeaderOptions where
  header : Value
  issuer : Option String := none
  allowedSignerMethods : Option (List String) := none
  allowMultipleSignerMethods : Bool := false
  allowDidKidIssuerMismatch : Bool := false

/-- The DID that a DID URL refers to. -/
def didOfDidUrl (didUrl : String) : String :=
  String.ofList (didUrl.toList.takeWhile fun c => c ≠ '/' ∧ c ≠ '?' ∧ c ≠ '#')

def x5cSigner (header : Value) (alg : String) : List FoundSigner :=
  match definedOf (header.get "x5c") with
  | some x5c => [.valid (.x5c (textsOf x5c) alg (textOf (header.get "kid")))]
  | none => []

def federationSigner (header : Value) (alg : String) : List FoundSigner :=
  match definedOf (header.get "trust_chain"), textOf (header.get "kid") with
  | none, _ => []
  | some _, none =>
      [.invalid "federation"
        "When 'trust_chain' is used in the header, the 'kid' parameter is required."]
  | some trustChain, some kid => [.valid (.federation (some (textsOf trustChain)) alg kid)]

def didSigner (options : JwsSignerFromHeaderOptions) (alg : String) : List FoundSigner :=
  let kid := textOf (options.header.get "kid")
  let isDid := kid.any (startsWith · "did:")
  let issuer := options.issuer.filter (· ≠ "")
  if isDid || issuer.any (startsWith · "did:") then
    if isDid && issuer.any (fun issuer => didOfDidUrl (kid.getD "") ≠ issuer) &&
        !options.allowDidKidIssuerMismatch then
      [.invalid "did"
        "kid in header starts with a did that is different from the did value in 'iss'"]
    else if !isDid && !kid.any (startsWith · "#") then
      [.invalid "did"
        "kid in header must start with either 'did:' or '#' when the 'iss' value is a did"]
    else [.valid (.did (if isDid then kid.getD "" else issuer.getD "" ++ kid.getD "") alg none)]
  else []

def jwkSigner (header : Value) (alg : String) : List FoundSigner :=
  match definedOf (header.get "jwk") with
  | some jwk => [.valid (.jwk jwk alg none)]
  | none => []

def jwsSignerFromHeader (options : JwsSignerFromHeaderOptions) :
    Except VerificationError JwsSigner :=
  let alg := (textOf (options.header.get "alg")).getD ""
  let found := x5cSigner options.header alg ++ federationSigner options.header alg ++
    didSigner options alg ++ jwkSigner options.header alg
  let allowedFound := found.filter fun f => options.allowedSignerMethods.all (·.contains f.method)
  match allowedFound.filterMap FoundSigner.signer? with
  | [signer] => .ok signer
  | signer :: others =>
    if options.allowMultipleSignerMethods then .ok signer
    else .error (.signer
      ("Unable to establish the signer of the JWS. The header identifies the signer in " ++
        s!"{others.length + 1} ways (" ++
      quoted ((signer :: others).map JwsSigner.method) ", " ++
      "), and it is ambiguous which one applies. Narrow it down with 'allowedSignerMethods', or " ++
      "set 'allowMultipleSignerMethods'."))
  | [] =>
    if allowedFound ≠ [] then
      .error (.signer
        (s!"Unable to establish the signer of the JWS. Found {allowedFound.length} allowed " ++
          "signer method(s), but they contained an invalid configuration:\n" ++
        "\n".intercalate (allowedFound.map FoundSigner.report)))
    else if found ≠ [] then
      .error (.signer
        (s!"Unable to establish the signer of the JWS. Found {found.length} signer method(s) " ++
          "that are not allowed:\n" ++
        "\n".intercalate (found.map FoundSigner.report)))
    else if options.allowedSignerMethods.all (·.contains "custom") then
      .ok (.custom alg (textOf (options.header.get "kid")))
    else .error (.signer
      ("Unable to establish the signer of the JWS. The header identifies no signer method, and " ++
       "the 'custom' signer method is not allowed."))

/-! ## Signatures -/

/-- What is handed to the callback besides the signer. -/
structure VerifyJwsContext where
  signingInput : String
  protectedHeader : Value
  payload : List UInt8
  jwtPayload : Option Value
  signature : String
  compact : Option String

/-- What the callback returns; without a key `signerJwk` is `undefined`. -/
structure VerifyJwsCallbackResult where
  verified : Bool
  signerJwk : Value

/-- The callback, that returns or throws. -/
abbrev VerifyJwsCallback := JwsSigner → VerifyJwsContext → Except String VerifyJwsCallbackResult

structure VerifyJwsSignatureOptions where
  context : VerifyJwsContext
  signer : Option JwsSigner := none
  allowedSignerMethods : Option (List String) := none
  allowMultipleSignerMethods : Bool := false
  allowDidKidIssuerMismatch : Bool := false
  allowedAlgorithms : Option (List String) := none
  allowSymmetricAlgorithms : Bool := false
  errorMessage : String := "Error during verification of the JWS."

/-- The signer, and the key that the signature was verified with. -/
structure VerifiedSigner where
  signer : JwsSigner
  publicJwk : Value

def assertSignerAlg (alg errorMessage : String) : Option JwsSigner → Except VerificationError Unit
  | none => .ok ()
  | some signer =>
    if signer.alg ≠ alg then
      .error (.algorithmNotAllowed (errorMessage ++ " The JWS uses alg '" ++ alg ++
        "', but the signer to verify against uses alg '" ++ signer.alg ++ "'."))
    else .ok ()

def signerOf (options : VerifyJwsSignatureOptions) : Except VerificationError JwsSigner :=
  match options.signer with
  | some signer => .ok signer
  | none => jwsSignerFromHeader {
      header := options.context.protectedHeader
      issuer := options.context.jwtPayload.bind fun payload => textOf (payload.get "iss")
      allowedSignerMethods := options.allowedSignerMethods
      allowMultipleSignerMethods := options.allowMultipleSignerMethods
      allowDidKidIssuerMismatch := options.allowDidKidIssuerMismatch }

/-- The key that the callback reports. -/
def signerJwkOf (errorMessage : String) : Except String VerifyJwsCallbackResult →
    Except VerificationError Value
  | .error _ => .error (.signatureVerification errorMessage)
  | .ok result =>
    if !result.verified then .error (.signatureVerification errorMessage)
    else if (zJwk result.signerJwk).isNone then
      .error (.signatureVerification (errorMessage ++
        " The verification callback reported the signature as verified, but did not return the " ++
        "jwk it was verified with."))
    else .ok result.signerJwk

def verifyJwsSignature (verifyJws : VerifyJwsCallback) (options : VerifyJwsSignatureOptions) :
    Except VerificationError VerifiedSigner := do
  let alg := (textOf (options.context.protectedHeader.get "alg")).getD ""
  assertJwsAlgorithmAllowed alg options.allowedAlgorithms options.allowSymmetricAlgorithms
    options.errorMessage
  assertSignerAlg alg options.errorMessage options.signer
  let signer ← signerOf options
  let publicJwk ← signerJwkOf options.errorMessage (verifyJws signer options.context)
  assertKeyAllowedForSignatureAlgorithm publicJwk alg
    (options.errorMessage ++
      " The key the JWS was verified with cannot be used with its algorithm.")
  return { signer, publicJwk }

/-- The callback accepted the signature over a JWS for a signer. -/
def Accepts (verifyJws : VerifyJwsCallback) (signer : JwsSigner) (context : VerifyJwsContext)
    (publicJwk : Value) : Prop :=
  verifyJws signer context = .ok { verified := true, signerJwk := publicJwk }

theorem signerJwkOf_eq_ok {errorMessage : String}
    {result : Except String VerifyJwsCallbackResult} {jwk : Value}
    (h : signerJwkOf errorMessage result = .ok jwk) :
    result = .ok { verified := true, signerJwk := jwk } := by
  cases result with
  | error e => cases h
  | ok result =>
    rw [signerJwkOf] at h
    split_ifs at h with hverified
    obtain ⟨verified, signerJwk⟩ := result
    cases h
    simp only [Bool.not_eq_true', Bool.not_eq_false] at hverified
    rw [hverified]

/-- The callback accepted the signature for the signer that is returned, who is the one to verify
against if there is one. -/
theorem verifyJwsSignature_eq_ok {verifyJws : VerifyJwsCallback}
    {options : VerifyJwsSignatureOptions} {result : VerifiedSigner}
    (h : verifyJwsSignature verifyJws options = .ok result) :
    Accepts verifyJws result.signer options.context result.publicJwk ∧
    signerOf options = .ok result.signer := by
  obtain ⟨_, _, h⟩ := bind_eq_ok.mp h
  obtain ⟨_, _, h⟩ := bind_eq_ok.mp h
  obtain ⟨signer, hsigner, h⟩ := bind_eq_ok.mp h
  obtain ⟨publicJwk, hjwk, h⟩ := bind_eq_ok.mp h
  obtain ⟨_, _, h⟩ := bind_eq_ok.mp h
  cases h
  exact ⟨signerJwkOf_eq_ok hjwk, hsigner⟩

end IdentityCommon.Jose
