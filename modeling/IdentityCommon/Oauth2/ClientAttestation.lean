import IdentityCommon.Oauth2.Callbacks

/-!
# Client attestations

An attestation of a client instance and of its key, by an attester that the server trusts, and a
proof of possession of that key.

## Main definitions

- `verifyClientAttestationJwt`, `verifyClientAttestationPopJwt` — the checks of an attestation, and
  of a proof
- `verifyClientAttestation` — both
- `AttestationVerified`, `PopVerified` — what is known of an attestation and of a proof that are
  verified

## Main results

- `verifyClientAttestationJwt_eq_ok`, `verifyClientAttestationPopJwt_eq_ok` — what passes the checks
  is verified
-/

namespace IdentityCommon.Oauth2

open Ecma AssocList Value Common Jose IdentityCommon.Except

def zClientAttestationJwtPayload (urls : Urls) : Schema :=
  looseObject (overrideShape jwtPayloadShape
    [("sub", zNonEmptyString), ("exp", zNumericDate), ("cnf", looseObject [("jwk", zJwk)]),
      ("wallet_name", optional zStringOrUri), ("wallet_link", optional (zUrl urls))])

def zClientAttestationJwtHeader : Schema :=
  looseObject (overrideShape headerShape [("typ", zTyp "oauth-client-attestation+jwt")])

def zClientAttestationPopJwtPayload (urls : Urls) : Schema :=
  looseObject (overrideShape jwtPayloadShape
    [("aud", union (zHttpsUrl urls) (array (zHttpsUrl urls))), ("iat", zNumericDate),
      ("jti", zNonEmptyString), ("challenge", optional zNonEmptyString),
        ("nonce", optional zNonEmptyString)])

def zClientAttestationPopJwtHeader : Schema :=
  looseObject (overrideShape headerShape [("typ", zTyp "oauth-client-attestation-pop+jwt")])

/-! ## Attestations -/

structure VerifyClientAttestationJwtOptions where
  clientAttestationJwt : String
  now : Date
  allowedSkewInSeconds : Option Double := none
  expectedClientId : Option String := none
  expectedConfirmationJwkThumbprint : Option String := none

structure VerifiedClientAttestationJwt where
  header : Value
  payload : Value
  signer : JwsSigner
  confirmationJwkThumbprint : String

/-- The key of the client instance. -/
def confirmationJwk (payload : Value) : Value := (payload.get "cnf").get "jwk"

/-- The methods of an attester: its key never comes from the attestation itself. -/
def attesterSignerMethods : List String := ["x5c", "federation", "custom", "did"]

section

variable (urls : Urls) (callbacks : Callbacks) (options : VerifyClientAttestationJwtOptions)

def decodeClientAttestation : Except Oauth2Error DecodedJwt :=
  (decodeJwt {
    jwt := options.clientAttestationJwt
    headerSchema := zClientAttestationJwtHeader
    payloadSchema := zClientAttestationJwtPayload urls }).mapError .jose

def attestationJwtOptions (decodedJwt : DecodedJwt) : VerifyJwtOptions where
  jwt := decodedJwt
  claims := { now := options.now, skewSeconds := options.allowedSkewInSeconds }
  allowedSignerMethods := some attesterSignerMethods
  errorMessage := "client attestation jwt verification failed."

def checkClientId (payload : Value) : Except Oauth2Error Unit :=
  check ((nonEmpty options.expectedClientId).all (textOf (payload.get "sub") = some ·))
    (.oauth2 ("Client attestation 'sub' (client_id) value '" ++
      (textOf (payload.get "sub")).getD "" ++ "' does not match the expected client id."))

def checkConfirmation (confirmationJwkThumbprint : String) : Except Oauth2Error Unit :=
  check ((nonEmpty options.expectedConfirmationJwkThumbprint).all (· = confirmationJwkThumbprint))
    (.oauth2 ("Client attestation 'cnf' jwk thumbprint '" ++ confirmationJwkThumbprint ++
      "' does not match the expected jwk thumbprint. Use the same client instance key for all " ++
      "requests."))

def verifyClientAttestationJwt : Except Oauth2Error VerifiedClientAttestationJwt := do
  let decodedJwt ← decodeClientAttestation urls options
  let verified ← (verifyJwt callbacks.verifyJws
    (attestationJwtOptions options decodedJwt)).mapError .jwt
  checkClientId options decodedJwt.payload
  let confirmationJwkThumbprint ← (calculateJwkThumbprint callbacks.hash
    (confirmationJwk decodedJwt.payload)).mapError .jose
  checkConfirmation options confirmationJwkThumbprint
  return {
    header := decodedJwt.header
    payload := decodedJwt.payload
    signer := verified.signer
    confirmationJwkThumbprint }

end

/-! ## Proofs of possession -/

structure VerifyClientAttestationPopJwtOptions where
  clientAttestationPopJwt : String
  authorizationServer : String
  expectedAudience : Option String := none
  expectedChallenge : Option String := none
  expectedNonce : Option String := none
  now : Date
  allowedSkewInSeconds : Option Double := none
  /-- The payload of the attestation. -/
  clientAttestation : Value

structure VerifiedClientAttestationPopJwt where
  header : Value
  payload : Value
  signer : JwsSigner

section

variable (urls : Urls) (callbacks : Callbacks) (options : VerifyClientAttestationPopJwtOptions)

def decodeClientAttestationPop : Except Oauth2Error DecodedJwt :=
  (decodeJwt {
    jwt := options.clientAttestationPopJwt
    headerSchema := zClientAttestationPopJwtHeader
    payloadSchema := zClientAttestationPopJwtPayload urls }).mapError .jose

def checkPopIssuer (payload : Value) : Except Oauth2Error Unit :=
  check (!isDefined (payload.get "iss") || textOf (payload.get "iss") =
    textOf (options.clientAttestation.get "sub"))
    (.oauth2 ("Client Attestation Pop jwt contains 'iss' (client_id) value '" ++
      (textOf (payload.get "iss")).getD "" ++
      "', but expected 'sub' value from client attestation '" ++
      (textOf (options.clientAttestation.get "sub")).getD "" ++ "'"))

/-- The challenge that a proof answers, under its name or under that of earlier drafts. -/
def challengeOf (payload : Value) : Option String :=
  (textOf (payload.get "challenge")).or (textOf (payload.get "nonce"))

def checkChallenge (payload : Value) : Except Oauth2Error Unit :=
  check ((options.expectedChallenge.or options.expectedNonce).all (challengeOf payload = some ·))
    (.oauth2 "Client Attestation Pop jwt 'challenge' does not match expected value.")

def VerifyClientAttestationPopJwtOptions.claims (options : VerifyClientAttestationPopJwtOptions) :
    VerifyJwtClaimsOptions where
  now := options.now
  skewSeconds := options.allowedSkewInSeconds
  expectedAudience := some [options.expectedAudience.getD options.authorizationServer]
  maxAgeSeconds := some (.finite (.ofInt 300 abs_threeHundred_le))

def popSigner (clientAttestation header : Value) : JwsSigner :=
  .jwk (confirmationJwk clientAttestation) ((textOf (header.get "alg")).getD "") none

def verifyClientAttestationPopJwt : Except Oauth2Error VerifiedClientAttestationPopJwt := do
  let decodedJwt ← decodeClientAttestationPop urls options
  checkPopIssuer options decodedJwt.payload
  checkChallenge options decodedJwt.payload
  let verified ← (verifyJwt callbacks.verifyJws {
    jwt := decodedJwt
    signer := some (popSigner options.clientAttestation decodedJwt.header)
    claims := options.claims
    errorMessage := "client attestation pop jwt verification failed" }).mapError .jwt
  return { header := decodedJwt.header, payload := decodedJwt.payload, signer := verified.signer }

end

/-! ## Both -/

structure VerifyClientAttestationOptions extends VerifyClientAttestationJwtOptions where
  authorizationServer : String
  clientAttestationPopJwt : String
  expectedChallenge : Option String := none

def VerifyClientAttestationOptions.pop (options : VerifyClientAttestationOptions)
    (clientAttestation : Value) : VerifyClientAttestationPopJwtOptions where
  clientAttestationPopJwt := options.clientAttestationPopJwt
  authorizationServer := options.authorizationServer
  expectedChallenge := options.expectedChallenge
  now := options.now
  allowedSkewInSeconds := options.allowedSkewInSeconds
  clientAttestation := clientAttestation

structure VerifiedClientAttestation where
  clientAttestation : VerifiedClientAttestationJwt
  /-- None where a DPoP proof is the proof of possession. -/
  clientAttestationPop : Option VerifiedClientAttestationPopJwt

/-- What is wrong with an attestation is a mistake of the client; anything else is one of the
server. -/
def clientAttestationError (error : Oauth2Error) : Oauth2Error :=
  if error.isIdentityError && !error.isInvalidArgument then
    .serverErrorCaused "invalid_client" "Error verifying client attestation. " error
  else .serverErrorCaused "server_error" "Error during verification of client attestation jwt" error

def verifyClientAttestation (urls : Urls) (callbacks : Callbacks)
    (options : VerifyClientAttestationOptions) : Except Oauth2Error VerifiedClientAttestation :=
  Except.mapError clientAttestationError do
    let clientAttestation ← verifyClientAttestationJwt urls callbacks
      options.toVerifyClientAttestationJwtOptions
    let clientAttestationPop ← verifyClientAttestationPopJwt urls callbacks
      (options.pop clientAttestation.payload)
    return { clientAttestation, clientAttestationPop := some clientAttestationPop }

/-! ## Attestations that are verified -/

/-- An attestation that is verified: a JWT that the callback accepted for an attester, for the
expected client and its expected key. -/
structure AttestationVerified (urls : Urls) (callbacks : Callbacks)
    (options : VerifyClientAttestationJwtOptions) (attestation : VerifiedClientAttestationJwt) :
    Prop where
  signature : ∃ jwt publicJwk, decodeClientAttestation urls options = .ok jwt ∧
    attestation.payload = jwt.payload ∧
    Accepts callbacks.verifyJws attestation.signer jwt.context publicJwk ∧
    signerOf (attestationJwtOptions options jwt).signatureOptions = .ok attestation.signer ∧
    ClaimsOk jwt.registeredPayload (attestationJwtOptions options jwt).claims
  clientId : ∀ id, nonEmpty options.expectedClientId = some id →
    attestation.payload.get "sub" = str id
  confirmation : calculateJwkThumbprint callbacks.hash (confirmationJwk attestation.payload) =
    .ok attestation.confirmationJwkThumbprint
  expected : ∀ thumbprint, nonEmpty options.expectedConfirmationJwkThumbprint = some thumbprint →
    thumbprint = attestation.confirmationJwkThumbprint

/-- A proof that is verified: a JWT that the callback accepted under the key of the client instance,
for the authorization server, with the expected challenge, and not too old. -/
structure PopVerified (urls : Urls) (callbacks : Callbacks)
    (options : VerifyClientAttestationPopJwtOptions) (pop : VerifiedClientAttestationPopJwt) :
    Prop where
  signature : ∃ jwt publicJwk, decodeClientAttestationPop urls options = .ok jwt ∧
    pop.payload = jwt.payload ∧
    Accepts callbacks.verifyJws
      (popSigner options.clientAttestation jwt.header) jwt.context publicJwk ∧
    ClaimsOk jwt.registeredPayload options.claims
  challenge : ∀ challenge, options.expectedChallenge.or options.expectedNonce = some challenge →
    challengeOf pop.payload = some challenge

/-- An attestation that passes the checks is verified. -/
theorem verifyClientAttestationJwt_eq_ok {urls : Urls} {callbacks : Callbacks}
    {options : VerifyClientAttestationJwtOptions} {attestation : VerifiedClientAttestationJwt}
    (h : verifyClientAttestationJwt urls callbacks options = .ok attestation) :
    AttestationVerified urls callbacks options attestation := by
  obtain ⟨jwt, hdecodes, h⟩ := bind_eq_ok.mp h
  obtain ⟨verified, hverified, h⟩ := bind_eq_ok.mp h
  obtain ⟨_, hclient, h⟩ := bind_eq_ok.mp h
  obtain ⟨thumbprint, hthumbprint, h⟩ := bind_eq_ok.mp h
  obtain ⟨_, hconfirmation, h⟩ := bind_eq_ok.mp h
  cases h
  obtain ⟨haccepts, hsigner, _, hclaims⟩ := verifyJwt_eq_ok (mapError_eq_ok.mp hverified)
  refine ⟨⟨jwt, verified.publicJwk, hdecodes, rfl, haccepts, hsigner, hclaims⟩, fun id hid => ?_,
    mapError_eq_ok.mp hthumbprint, fun expected hexpected => ?_⟩
  · have hall := check_eq_ok.mp hclient
    rw [hid] at hall
    exact textOf_eq_some.mp (of_decide_eq_true hall)
  · have hall := check_eq_ok.mp hconfirmation
    rw [hexpected] at hall
    exact of_decide_eq_true hall

/-- A proof that passes the checks is verified. -/
theorem verifyClientAttestationPopJwt_eq_ok {urls : Urls} {callbacks : Callbacks}
    {options : VerifyClientAttestationPopJwtOptions} {pop : VerifiedClientAttestationPopJwt}
    (h : verifyClientAttestationPopJwt urls callbacks options = .ok pop) :
    PopVerified urls callbacks options pop := by
  obtain ⟨jwt, hdecodes, h⟩ := bind_eq_ok.mp h
  obtain ⟨_, _, h⟩ := bind_eq_ok.mp h
  obtain ⟨_, hchallenge, h⟩ := bind_eq_ok.mp h
  obtain ⟨verified, hverified, h⟩ := bind_eq_ok.mp h
  cases h
  obtain ⟨haccepts, hsigner, _, hclaims⟩ := verifyJwt_eq_ok (mapError_eq_ok.mp hverified)
  have heq := Except.ok.inj hsigner
  rw [← heq] at haccepts
  refine ⟨⟨jwt, verified.publicJwk, hdecodes, rfl, haccepts, hclaims⟩, fun challenge hsome => ?_⟩
  have hall := check_eq_ok.mp hchallenge
  rw [hsome] at hall
  exact of_decide_eq_true hall

end IdentityCommon.Oauth2
