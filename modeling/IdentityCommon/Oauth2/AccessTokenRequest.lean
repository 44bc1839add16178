import IdentityCommon.Oauth2.ClientAttestation
import IdentityCommon.Oauth2.Dpop

/-!
# Access token requests

A request to a token endpoint: the code or the refresh token that is presented, and what the grant
is bound to, which is a code challenge, a DPoP key and a client attestation.

## Main definitions

- `verifyPkce`, `verifyAccessTokenRequestPkce`, `verifyAccessTokenRequestDpop`,
  `verifyAccessTokenRequestClientAttestation` — the checks of what a grant is bound to
- `verifyPreAuthorizedCodeAccessTokenRequest`, `verifyAuthorizationCodeAccessTokenRequest`,
  `verifyRefreshTokenAccessTokenRequest` — the checks of a request
- `Bindings` — a request that honours what its grant is bound to
- `Checked` — what is presented where something is expected

## Main results

- `bindings_iff_checked`, `grants_enforced` — a request that passes the checks honours its grant if
  and only if nothing that is expected is left out

## Design notes

An option that is an empty text counts as one that is not given, as the source reads it, other than
a code challenge.
-/

namespace IdentityCommon.Oauth2

open Ecma Value Common Jose IdentityCommon.Except

structure VerifyAccessTokenRequestDpop extends DpopVerificationOptions where
  required : Bool := false
  jwt : Option String := none
  expectedJwkThumbprint : Option String := none

structure VerifyAccessTokenRequestClientAttestation where
  required : Bool := false
  ensureConfirmationKeyMatchesDpopKey : Bool := false
  clientAttestationJwt : Option String := none
  clientAttestationPopJwt : Option String := none
  expectedChallenge : Option String := none
  expectedClientId : Option String := none
  expectedConfirmationJwkThumbprint : Option String := none
  allowedSkewInSeconds : Option Double := none

structure VerifyAccessTokenRequestPkce where
  codeVerifier : Option String := none
  codeChallenge : String
  codeChallengeMethod : String

/-- The options of each of the three requests. -/
structure VerifyAccessTokenRequestOptions where
  authorizationServerMetadata : AuthorizationServerMetadata
  /-- The `code_verifier` of the request. -/
  codeVerifier : Option String := none
  request : RequestLike
  clientAttestation : Option VerifyAccessTokenRequestClientAttestation := none
  dpop : Option VerifyAccessTokenRequestDpop := none
  pkce : Option VerifyAccessTokenRequestPkce := none
  now : Date

structure DpopReturn where
  jwk : Value
  jwkThumbprint : String

structure VerifyAccessTokenRequestReturn where
  dpop : Option DpopReturn
  clientAttestation : Option VerifiedClientAttestation

/-! ## Code challenges -/

def calculateCodeChallenge (callbacks : Callbacks) (codeVerifier codeChallengeMethod : String) :
    Except Oauth2Error String :=
  if codeChallengeMethod = "plain" then .ok codeVerifier
  else if codeChallengeMethod = "S256" then .ok (base64url (callbacks.hash codeVerifier))
  else .error (.oauth2 ("Unsupported code challenge method " ++ codeChallengeMethod))

def verifyPkce (callbacks : Callbacks) (codeVerifier codeChallenge codeChallengeMethod : String) :
    Except Oauth2Error Unit := do
  let calculatedCodeChallenge ← calculateCodeChallenge callbacks codeVerifier codeChallengeMethod
  check (codeChallenge = calculatedCodeChallenge)
    (.oauth2 ("Derived code challenge '" ++ calculatedCodeChallenge ++
    "' from code_verifier '" ++ codeVerifier ++ "' using code challenge method '" ++
    codeChallengeMethod ++
    "' does not match the expected code challenge."))

def pkceError : Oauth2Error → Oauth2Error
  | .oauth2 message => .serverErrorResponse "invalid_grant" message
  | error => error

def verifyAccessTokenRequestPkce (callbacks : Callbacks)
    (options : VerifyAccessTokenRequestOptions) : Except Oauth2Error Unit :=
  match options.pkce with
  | none =>
    -- a code that was obtained without PKCE must not be used by a client that uses it
    check ((nonEmpty options.codeVerifier).isNone) (.serverErrorResponse "invalid_grant"
      "Unexpected 'code_verifier' in access token request, no code challenge is bound to the grant")
  | some pkce =>
    match nonEmpty pkce.codeVerifier with
    | none =>
      check (pkce.codeChallenge = "")
        (.serverErrorResponse "invalid_grant"
          "Missing required 'code_verifier' in access token request")
    | some codeVerifier =>
      (verifyPkce callbacks codeVerifier pkce.codeChallenge
        pkce.codeChallengeMethod).mapError pkceError

/-! ## DPoP -/

def VerifyAccessTokenRequestDpop.verification (dpop : VerifyAccessTokenRequestDpop)
    (dpopJwt : String) (request : RequestLike) (now : Date) : VerifyDpopJwtOptions where
  toDpopVerificationOptions := dpop.toDpopVerificationOptions
  dpopJwt := dpopJwt
  request := request
  expectedJwkThumbprint := dpop.expectedJwkThumbprint
  now := now

section

variable (urls : Urls) (callbacks : Callbacks)

def verifyAccessTokenRequestDpop (dpop : VerifyAccessTokenRequestDpop)
    (request : RequestLike) (now : Date) : Except Oauth2Error (Option DpopReturn) :=
  match nonEmpty dpop.jwt with
  | none =>
    if dpop.required then
      .error (.serverErrorResponse "invalid_dpop_proof" "Missing required DPoP proof")
    else .ok none
  | some jwt => do
    let result ← verifyDpopJwt urls callbacks (dpop.verification jwt request now)
    return some { jwk := result.header.get "jwk", jwkThumbprint := result.jwkThumbprint }

/-! ## Client attestations -/

def assertConfirmationKeyMatchesDpopKey (confirmationJwkThumbprint dpopJwkThumbprint : String) :
    Except Oauth2Error Unit :=
  check (confirmationJwkThumbprint = dpopJwkThumbprint) (.serverErrorResponse "invalid_request"
    ("Expected the DPoP JWK thumbprint value to match the JWK thumbprint of the client " ++
     "attestation confirmation JWK. Ensure both DPoP and client attestation use the same key."))

variable (options : VerifyAccessTokenRequestClientAttestation)
    (server : AuthorizationServerMetadata)
  (dpopJwkThumbprint : Option String) (now : Date)

def VerifyAccessTokenRequestClientAttestation.attestation
    (options : VerifyAccessTokenRequestClientAttestation) (clientAttestationJwt : String)
    (now : Date) : VerifyClientAttestationJwtOptions where
  clientAttestationJwt := clientAttestationJwt
  now := now
  allowedSkewInSeconds := options.allowedSkewInSeconds
  expectedClientId := options.expectedClientId
  expectedConfirmationJwkThumbprint := options.expectedConfirmationJwkThumbprint

def VerifyAccessTokenRequestClientAttestation.both
    (options : VerifyAccessTokenRequestClientAttestation)
    (clientAttestationJwt clientAttestationPopJwt : String)
    (server : AuthorizationServerMetadata) (now : Date) : VerifyClientAttestationOptions where
  toVerifyClientAttestationJwtOptions := options.attestation clientAttestationJwt now
  authorizationServer := server.issuer
  clientAttestationPopJwt := clientAttestationPopJwt
  expectedChallenge := options.expectedChallenge

def requireDpopProof (dpopJwkThumbprint : Option String) : Except Oauth2Error String :=
  match nonEmpty dpopJwkThumbprint with
  | some dpopJwkThumbprint => .ok dpopJwkThumbprint
  | none => .error (.serverErrorResponse "invalid_client"
      ("Client attestation provided without an 'OAuth-Client-Attestation-PoP' header, but no " ++
       "valid DPoP proof is present. The 'attest_jwt_client_auth_dpop' method requires a DPoP " ++
       "proof."))

def attestationDpopError (error : Oauth2Error) : Oauth2Error :=
  if error.isIdentityError && !error.isInvalidArgument then
    .serverErrorCaused "invalid_client" "Error verifying client attestation. " error
  else error

/-- The DPoP proof serves as the proof of possession. -/
def verifyAccessTokenRequestClientAttestationDpop (clientAttestationJwt : String) :
    Except Oauth2Error VerifiedClientAttestation := do
  check (server.tokenEndpointAuthMethodsSupported.all ("attest_jwt_client_auth_dpop" ∈ ·))
    (.serverErrorResponse "invalid_client"
      ("The authorization server does not support the 'attest_jwt_client_auth_dpop' client " ++
       "authentication method."))
  let dpopJwkThumbprint ← requireDpopProof dpopJwkThumbprint
  let clientAttestation ← (verifyClientAttestationJwt urls callbacks
    (options.attestation clientAttestationJwt now)).mapError attestationDpopError
  assertConfirmationKeyMatchesDpopKey clientAttestation.confirmationJwkThumbprint dpopJwkThumbprint
  return { clientAttestation, clientAttestationPop := none }

/-- Whether the key of the attestation is that of the proof, where this is to be ensured and there
are both. -/
def ensureMatchingKey (confirmationJwkThumbprint : String) : Except Oauth2Error Unit :=
  match options.ensureConfirmationKeyMatchesDpopKey, nonEmpty dpopJwkThumbprint with
  | true, some dpopJwkThumbprint =>
      assertConfirmationKeyMatchesDpopKey confirmationJwkThumbprint dpopJwkThumbprint
  | _, _ => .ok ()

def verifyAccessTokenRequestClientAttestation :
    Except Oauth2Error (Option VerifiedClientAttestation) :=
  match nonEmpty options.clientAttestationJwt, nonEmpty options.clientAttestationPopJwt with
  | none, pop =>
    if !options.required && (nonEmpty options.expectedConfirmationJwkThumbprint).isNone &&
      pop.isNone then .ok none
    else .error (.serverErrorResponse "invalid_client"
      ("Missing required client attestation parameters in access token request. Make sure to " ++
       "provide the 'OAuth-Client-Attestation' and 'OAuth-Client-Attestation-PoP' header values."))
  | some clientAttestationJwt, none =>
    (verifyAccessTokenRequestClientAttestationDpop urls callbacks options server
      dpopJwkThumbprint now clientAttestationJwt).map some
  | some clientAttestationJwt, some clientAttestationPopJwt => do
    let verified ← verifyClientAttestation urls callbacks
      (options.both clientAttestationJwt clientAttestationPopJwt server now)
    ensureMatchingKey options dpopJwkThumbprint verified.clientAttestation.confirmationJwkThumbprint
    return some verified

end

/-! ## The three requests -/

section

variable (urls : Urls) (callbacks : Callbacks)

def dpopOf (options : VerifyAccessTokenRequestOptions) : Except Oauth2Error (Option DpopReturn) :=
  match options.dpop with
  | none => .ok none
  | some dpop => verifyAccessTokenRequestDpop urls callbacks dpop options.request options.now

def clientAttestationOf (options : VerifyAccessTokenRequestOptions) (dpop : Option DpopReturn) :
    Except Oauth2Error (Option VerifiedClientAttestation) :=
  match options.clientAttestation with
  | none => .ok none
  | some clientAttestation =>
    verifyAccessTokenRequestClientAttestation urls callbacks clientAttestation
      options.authorizationServerMetadata (dpop.map DpopReturn.jwkThumbprint) options.now

/-- The checks of what a grant is bound to, and then those of the grant. -/
def verifyAccessTokenRequest (options : VerifyAccessTokenRequestOptions)
    (checkGrant : Except Oauth2Error Unit) : Except Oauth2Error VerifyAccessTokenRequestReturn := do
  verifyAccessTokenRequestPkce callbacks options
  let dpop ← dpopOf urls callbacks options
  let clientAttestation ← clientAttestationOf urls callbacks options dpop
  checkGrant
  return { dpop, clientAttestation }

def checkPresented (name presented expected : String) : Except Oauth2Error Unit :=
  check (presented = expected)
    (.serverErrorResponse "invalid_grant" ("Invalid '" ++ name ++ "' provided"))

/-- A grant without an expiration does not expire. -/
def checkExpiration (name : String) (expiresAt : Option Date) (now : Date) :
    Except Oauth2Error Unit :=
  check (expiresAt.all fun expiresAt => !expiresAt.lt now)
    (.serverErrorResponse "invalid_grant" ("Expired '" ++ name ++ "' provided"))

def checkTxCode (txCode expectedTxCode : Option String) : Except Oauth2Error Unit :=
  if txCode = expectedTxCode then .ok ()
  else if (nonEmpty expectedTxCode).isNone then
    .error (.serverErrorResponse "invalid_request"
      "Request contains 'tx_code' that was not expected")
  else if (nonEmpty txCode).isNone then
    .error (.serverErrorResponse "invalid_request" "Missing required 'tx_code' in request")
  else .error (.serverErrorResponse "invalid_grant" "Invalid 'tx_code' provided")

structure VerifyPreAuthorizedCodeAccessTokenRequestOptions extends
    VerifyAccessTokenRequestOptions where
  preAuthorizedCode : String
  txCode : Option String := none
  expectedPreAuthorizedCode : String
  expectedTxCode : Option String := none
  preAuthorizedCodeExpiresAt : Option Date := none

structure VerifyAuthorizationCodeAccessTokenRequestOptions extends
    VerifyAccessTokenRequestOptions where
  code : String
  expectedCode : String
  codeExpiresAt : Option Date := none

structure VerifyRefreshTokenAccessTokenRequestOptions extends VerifyAccessTokenRequestOptions where
  refreshToken : String
  expectedRefreshToken : String
  refreshTokenExpiresAt : Option Date := none

def verifyPreAuthorizedCodeAccessTokenRequest
    (options : VerifyPreAuthorizedCodeAccessTokenRequestOptions) :
    Except Oauth2Error VerifyAccessTokenRequestReturn :=
  verifyAccessTokenRequest urls callbacks options.toVerifyAccessTokenRequestOptions do
    checkPresented "pre-authorized_code" options.preAuthorizedCode options.expectedPreAuthorizedCode
    checkTxCode options.txCode options.expectedTxCode
    checkExpiration "pre-authorized_code" options.preAuthorizedCodeExpiresAt options.now

def verifyAuthorizationCodeAccessTokenRequest
    (options : VerifyAuthorizationCodeAccessTokenRequestOptions) :
    Except Oauth2Error VerifyAccessTokenRequestReturn :=
  verifyAccessTokenRequest urls callbacks options.toVerifyAccessTokenRequestOptions do
    checkPresented "code" options.code options.expectedCode
    checkExpiration "code" options.codeExpiresAt options.now

def verifyRefreshTokenAccessTokenRequest (options : VerifyRefreshTokenAccessTokenRequestOptions) :
    Except Oauth2Error VerifyAccessTokenRequestReturn :=
  verifyAccessTokenRequest urls callbacks options.toVerifyAccessTokenRequestOptions do
    checkPresented "refresh_token" options.refreshToken options.expectedRefreshToken
    checkExpiration "refresh_token" options.refreshTokenExpiresAt options.now

end

/-! ## Grants that are honoured -/

/-- A grant does not expire, or has not expired. -/
def NotExpired (expiresAt : Option Date) (now : Date) : Prop :=
  ∀ t u, expiresAt = some (some t) → now = some u → u.ms ≤ t.ms

/-- A code challenge that is bound is that of the verifier, and without one there is no verifier. -/
structure PkceBound (callbacks : Callbacks) (options : VerifyAccessTokenRequestOptions) : Prop where
  challenge : ∀ pkce, options.pkce = some pkce →
    ∃ codeVerifier, nonEmpty pkce.codeVerifier = some codeVerifier ∧
    calculateCodeChallenge callbacks codeVerifier pkce.codeChallengeMethod = .ok pkce.codeChallenge
  absent : options.pkce = none → nonEmpty options.codeVerifier = none

/-- The key of the proof of this request, that is verified against what is expected. -/
def DpopProved (urls : Urls) (callbacks : Callbacks) (options : VerifyAccessTokenRequestOptions)
    (proof : DpopReturn) : Prop :=
  ∃ dpop jwt decoded result, options.dpop = some dpop ∧ nonEmpty dpop.jwt = some jwt ∧
    DpopVerified urls callbacks (dpop.verification jwt options.request options.now) decoded result ∧
    proof.jwk = decoded.header.get "jwk" ∧
    calculateJwkThumbprint callbacks.hash proof.jwk = .ok proof.jwkThumbprint ∧
    ∀ thumbprint, nonEmpty dpop.expectedJwkThumbprint = some thumbprint →
    thumbprint = proof.jwkThumbprint

structure DpopBound (urls : Urls) (callbacks : Callbacks)
    (options : VerifyAccessTokenRequestOptions) (result : VerifyAccessTokenRequestReturn) :
    Prop where
  present : ∀ dpop, options.dpop = some dpop →
    dpop.required = true ∨ (nonEmpty dpop.expectedJwkThumbprint).isSome = true →
    result.dpop.isSome = true
  proved : ∀ proof, result.dpop = some proof → DpopProved urls callbacks options proof

/-- An attestation that is verified, with a proof of possession of its key, which is a JWT or the
DPoP proof. -/
structure Attested (urls : Urls) (callbacks : Callbacks) (options : VerifyAccessTokenRequestOptions)
    (dpop : Option DpopReturn) (verified : VerifiedClientAttestation) : Prop where
  attestation : ∃ expected jwt, options.clientAttestation = some expected ∧
    nonEmpty expected.clientAttestationJwt = some jwt ∧
    AttestationVerified urls callbacks
      (expected.attestation jwt options.now) verified.clientAttestation
  possession : (∃ expected jwt popJwt pop, options.clientAttestation = some expected ∧
      nonEmpty expected.clientAttestationJwt = some jwt ∧
      nonEmpty expected.clientAttestationPopJwt = some popJwt ∧
        verified.clientAttestationPop = some pop ∧
      PopVerified urls callbacks
        ((expected.both jwt popJwt options.authorizationServerMetadata options.now).pop
        verified.clientAttestation.payload) pop) ∨
    ∃ proof, dpop = some proof ∧
    proof.jwkThumbprint = verified.clientAttestation.confirmationJwkThumbprint

structure AttestationBound (urls : Urls) (callbacks : Callbacks)
    (options : VerifyAccessTokenRequestOptions) (result : VerifyAccessTokenRequestReturn) :
    Prop where
  present : ∀ expected, options.clientAttestation = some expected →
    expected.required = true ∨ (nonEmpty expected.expectedConfirmationJwkThumbprint).isSome = true ∨
      (nonEmpty expected.clientAttestationJwt).isSome = true →
      result.clientAttestation.isSome = true
  attested : ∀ verified, result.clientAttestation = some verified →
    Attested urls callbacks options result.dpop verified

/-- A request that honours what its grant is bound to. -/
structure Bindings (urls : Urls) (callbacks : Callbacks) (options : VerifyAccessTokenRequestOptions)
    (result : VerifyAccessTokenRequestReturn) : Prop where
  pkce : PkceBound callbacks options
  dpop : DpopBound urls callbacks options result
  attestation : AttestationBound urls callbacks options result

/-- What the checks leave out: a key that is expected but not proved where no proof is required, and
a code challenge that is an empty text. -/
structure Checked (options : VerifyAccessTokenRequestOptions) : Prop where
  proof : ∀ dpop, options.dpop = some dpop → (nonEmpty dpop.expectedJwkThumbprint).isSome = true →
    (nonEmpty dpop.jwt).isSome = true
  challenge : ∀ pkce, options.pkce = some pkce → pkce.codeChallenge = "" →
    (nonEmpty pkce.codeVerifier).isSome = true

section

variable {urls : Urls} {callbacks : Callbacks} {options : VerifyAccessTokenRequestOptions}

theorem checkExpiration_eq_ok {name : String} {expiresAt : Option Date} {now : Date} {u : Unit}
    (h : checkExpiration name expiresAt now = .ok u) : NotExpired expiresAt now := by
  have hall := check_eq_ok.mp h
  rintro t v rfl rfl
  have hnot : Date.lt (some t) (some v) = false := by simpa using hall
  by_contra hlt
  rw [Date.some_lt _ _ |>.mpr (not_le.mp hlt)] at hnot
  cases hnot

theorem checkTxCode_eq_ok {txCode expectedTxCode : Option String} {u : Unit}
    (h : checkTxCode txCode expectedTxCode = .ok u) : txCode = expectedTxCode := by
  unfold checkTxCode at h
  split_ifs at h with heq
  exact heq

/-- The checks of a code challenge that pass, of which one that is an empty text needs no
verifier. -/
theorem verifyAccessTokenRequestPkce_eq_ok {u : Unit}
    (h : verifyAccessTokenRequestPkce callbacks options = .ok u) :
    PkceBound callbacks options ↔
      ∀ pkce, options.pkce = some pkce → pkce.codeChallenge = "" →
      (nonEmpty pkce.codeVerifier).isSome = true := by
  constructor
  · intro hbound pkce hpkce _
    obtain ⟨codeVerifier, hverifier, _⟩ := hbound.challenge pkce hpkce
    rw [hverifier]
    rfl
  · intro hempty
    unfold verifyAccessTokenRequestPkce at h
    cases hpkce : options.pkce with
    | none =>
      rw [hpkce] at h
      refine ⟨fun pkce hsome => ?_, fun _ => Option.isNone_iff_eq_none.mp (check_eq_ok.mp h)⟩
      rw [hpkce] at hsome
      cases hsome
    | some pkce =>
      rw [hpkce] at h
      refine ⟨fun pkce' hsome => ?_, fun hnone => ?_⟩
      · rw [hpkce] at hsome
        cases hsome
        dsimp only at h
        split at h
        · next hnone =>
          have hsome := hempty pkce hpkce (of_decide_eq_true (check_eq_ok.mp h))
          rw [hnone] at hsome
          cases hsome
        · next codeVerifier hverifier =>
          obtain ⟨calculated, hcalculated, h⟩ := bind_eq_ok.mp (mapError_eq_ok.mp h)
          have hsame : pkce.codeChallenge = calculated := of_decide_eq_true (check_eq_ok.mp h)
          rw [hsame]
          exact ⟨codeVerifier, hverifier, hcalculated⟩
      · rw [hpkce] at hnone
        cases hnone

/-- The key of a proof, if there is one. -/
theorem dpopOf_eq_ok {dpop : Option DpopReturn} (h : dpopOf urls callbacks options = .ok dpop) :
    (∀ proof, dpop = some proof → DpopProved urls callbacks options proof) ∧
      ∀ expected, options.dpop = some expected →
      (dpop.isSome = true ↔ (nonEmpty expected.jwt).isSome = true) ∧
        (expected.required = true → dpop.isSome = true) := by
  unfold dpopOf at h
  cases hdpop : options.dpop with
  | none =>
    rw [hdpop] at h
    cases h
    exact ⟨fun _ heq => (nomatch heq), fun _ heq => (nomatch heq)⟩
  | some expected =>
    rw [hdpop] at h
    dsimp only at h
    unfold verifyAccessTokenRequestDpop at h
    split at h
    · next hnone =>
      split_ifs at h with hrequired
      cases h
      refine ⟨nofun, fun expected' heq => ?_⟩
      cases heq
      exact ⟨by rw [hnone]; exact Iff.rfl, fun htrue => absurd htrue hrequired⟩
    · next jwt hjwt =>
      obtain ⟨result, hverified, h⟩ := bind_eq_ok.mp h
      cases h
      obtain ⟨decoded, hproof⟩ := verifyDpopJwt_eq_ok hverified
      refine ⟨fun proof heq => ?_, fun expected' heq => ?_⟩
      · cases heq
        refine ⟨expected, jwt, decoded, result, hdpop, hjwt, hproof, ?_, ?_, hproof.expected⟩
        · rw [hproof.header]
        · rw [hproof.header]
          exact hproof.thumbprint
      · cases heq
        exact ⟨by rw [hjwt]; exact Iff.rfl, fun _ => rfl⟩

/-- An attestation that passes the checks, if there is one, and it is there where it is needed. -/
theorem clientAttestationOf_eq_ok {dpop : Option DpopReturn}
    {attestation : Option VerifiedClientAttestation}
    (h : clientAttestationOf urls callbacks options dpop = .ok attestation) :
    AttestationBound urls callbacks options { dpop, clientAttestation := attestation } := by
  unfold clientAttestationOf at h
  cases hexpected : options.clientAttestation with
  | none =>
    rw [hexpected] at h
    cases h
    refine ⟨fun expected heq => ?_, nofun⟩
    rw [hexpected] at heq
    cases heq
  | some expected =>
    rw [hexpected] at h
    dsimp only at h
    unfold verifyAccessTokenRequestClientAttestation at h
    split at h
    · next hjwt =>
      split_ifs at h with habsent
      cases h
      refine ⟨fun expected' heq hneeded => ?_, nofun⟩
      rw [hexpected] at heq
      cases heq
      simp only [Bool.and_eq_true, Bool.not_eq_true', Option.isNone_iff_eq_none] at habsent
      rw [hjwt, habsent.1.1, habsent.1.2] at hneeded
      simp at hneeded
    · next jwt hjwt _ =>
      obtain ⟨verified, hverified, rfl⟩ := map_eq_ok.mp h
      obtain ⟨_, _, hverified⟩ := bind_eq_ok.mp hverified
      obtain ⟨thumbprint, hthumbprint, hverified⟩ := bind_eq_ok.mp hverified
      obtain ⟨attestation, hattestation, hverified⟩ := bind_eq_ok.mp hverified
      obtain ⟨_, hmatches, hverified⟩ := bind_eq_ok.mp hverified
      cases hverified
      refine ⟨fun _ _ _ => rfl, fun verified heq => ?_⟩
      cases heq
      refine ⟨⟨expected, jwt, hexpected, hjwt,
        verifyClientAttestationJwt_eq_ok (mapError_eq_ok.mp hattestation)⟩, .inr ?_⟩
      unfold requireDpopProof at hthumbprint
      split at hthumbprint
      · next hdpop =>
        cases hthumbprint
        obtain ⟨proof, hproof, hjwk⟩ := Option.map_eq_some_iff.mp (nonEmpty_eq_some.mp hdpop).1
        have hsame := of_decide_eq_true (check_eq_ok.mp hmatches)
        exact ⟨proof, hproof, by rw [hsame, hjwk]⟩
      · cases hthumbprint
    · next jwt popJwt hjwt hpopJwt =>
      obtain ⟨verified, hverified, h⟩ := bind_eq_ok.mp h
      obtain ⟨_, _, h⟩ := bind_eq_ok.mp h
      cases h
      obtain ⟨attestation, hattestation, hverified⟩ := bind_eq_ok.mp (mapError_eq_ok.mp hverified)
      obtain ⟨pop, hpop, hverified⟩ := bind_eq_ok.mp hverified
      cases hverified
      refine ⟨fun _ _ _ => rfl, fun verified heq => ?_⟩
      cases heq
      exact ⟨⟨expected, jwt, hexpected, hjwt, verifyClientAttestationJwt_eq_ok hattestation⟩,
        .inl ⟨expected, jwt, popJwt, pop, hexpected, hjwt, hpopJwt, rfl,
          verifyClientAttestationPopJwt_eq_ok hpop⟩⟩

/-- A request that passes the checks honours what its grant is bound to if and only if nothing is
left out. -/
theorem bindings_iff_checked {checkGrant : Except Oauth2Error Unit}
    {result : VerifyAccessTokenRequestReturn}
    (h : verifyAccessTokenRequest urls callbacks options checkGrant = .ok result) :
    (Bindings urls callbacks options result ↔ Checked options) ∧ checkGrant = .ok () := by
  obtain ⟨_, hpkce, h⟩ := bind_eq_ok.mp h
  obtain ⟨dpop, hdpop, h⟩ := bind_eq_ok.mp h
  obtain ⟨attestation, hattestation, h⟩ := bind_eq_ok.mp h
  obtain ⟨_, hgrant, h⟩ := bind_eq_ok.mp h
  cases h
  have hchallenge := verifyAccessTokenRequestPkce_eq_ok hpkce
  obtain ⟨hproved, hpresent⟩ := dpopOf_eq_ok hdpop
  refine ⟨⟨fun hbindings => ⟨fun expected heq hexpected => ?_, hchallenge.mp hbindings.pkce⟩,
    fun hchecked => ?_⟩, hgrant⟩
  · exact (hpresent expected heq).1.mp (hbindings.dpop.present expected heq (.inr hexpected))
  · refine ⟨hchallenge.mpr hchecked.challenge, ⟨fun expected heq hneeded => ?_, hproved⟩,
      clientAttestationOf_eq_ok hattestation⟩
    rcases hneeded with hrequired | hexpected
    · exact (hpresent expected heq).2 hrequired
    · exact (hpresent expected heq).1.mpr (hchecked.proof expected heq hexpected)

theorem checkPresented_eq_ok {name presented expected : String} {u : Unit}
    (h : checkPresented name presented expected = .ok u) : presented = expected :=
  of_decide_eq_true (check_eq_ok.mp h)

end

/-! ## The three grants -/

/-- A pre-authorized code that is the expected one, with the expected transaction code, and has not
expired. -/
structure PreAuthorizedCodeOk (options : VerifyPreAuthorizedCodeAccessTokenRequestOptions) :
    Prop where
  code : options.preAuthorizedCode = options.expectedPreAuthorizedCode
  txCode : options.txCode = options.expectedTxCode
  current : NotExpired options.preAuthorizedCodeExpiresAt options.now

structure AuthorizationCodeOk (options : VerifyAuthorizationCodeAccessTokenRequestOptions) :
    Prop where
  code : options.code = options.expectedCode
  current : NotExpired options.codeExpiresAt options.now

structure RefreshTokenOk (options : VerifyRefreshTokenAccessTokenRequestOptions) : Prop where
  token : options.refreshToken = options.expectedRefreshToken
  current : NotExpired options.refreshTokenExpiresAt options.now

/-- The three requests enforce their grant, and what it is bound to, exactly where nothing is left
out. -/
theorem grants_enforced (urls : Urls) (callbacks : Callbacks) :
    (∀ options result, verifyPreAuthorizedCodeAccessTokenRequest urls callbacks options =
      .ok result →
      (PreAuthorizedCodeOk options ∧
        Bindings urls callbacks options.toVerifyAccessTokenRequestOptions result ↔
        Checked options.toVerifyAccessTokenRequestOptions)) ∧
    (∀ options result, verifyAuthorizationCodeAccessTokenRequest urls callbacks options =
      .ok result →
      (AuthorizationCodeOk options ∧
        Bindings urls callbacks options.toVerifyAccessTokenRequestOptions result ↔
        Checked options.toVerifyAccessTokenRequestOptions)) ∧
    (∀ options result, verifyRefreshTokenAccessTokenRequest urls callbacks options = .ok result →
      (RefreshTokenOk options ∧
        Bindings urls callbacks options.toVerifyAccessTokenRequestOptions result ↔
        Checked options.toVerifyAccessTokenRequestOptions)) := by
  refine ⟨fun options result h => ?_, fun options result h => ?_, fun options result h => ?_⟩
  · obtain ⟨hiff, hgrant⟩ := bindings_iff_checked h
    obtain ⟨_, hcode, hgrant⟩ := bind_eq_ok.mp hgrant
    obtain ⟨_, htxCode, hexpiration⟩ := bind_eq_ok.mp hgrant
    have hok : PreAuthorizedCodeOk options :=
      ⟨checkPresented_eq_ok hcode, checkTxCode_eq_ok htxCode, checkExpiration_eq_ok hexpiration⟩
    exact (and_iff_right hok).trans hiff
  · obtain ⟨hiff, hgrant⟩ := bindings_iff_checked h
    obtain ⟨_, hcode, hexpiration⟩ := bind_eq_ok.mp hgrant
    have hok : AuthorizationCodeOk options :=
      ⟨checkPresented_eq_ok hcode, checkExpiration_eq_ok hexpiration⟩
    exact (and_iff_right hok).trans hiff
  · obtain ⟨hiff, hgrant⟩ := bindings_iff_checked h
    obtain ⟨_, htoken, hexpiration⟩ := bind_eq_ok.mp hgrant
    have hok : RefreshTokenOk options :=
      ⟨checkPresented_eq_ok htoken, checkExpiration_eq_ok hexpiration⟩
    exact (and_iff_right hok).trans hiff

theorem abs_zero_le_maxTime : |(0 : ℤ)| ≤ maxTime := by decide

/-- A request to redeem a code at the epoch, for a server that expects a code challenge or a DPoP
key. -/
def redeeming (pkce : Option VerifyAccessTokenRequestPkce)
    (dpop : Option VerifyAccessTokenRequestDpop) :
    VerifyAuthorizationCodeAccessTokenRequestOptions where
  authorizationServerMetadata := { issuer := "https://as.example" }
  request := { header := fun _ => none, method := "POST", url := "https://as.example/token" }
  pkce := pkce
  dpop := dpop
  now := some ⟨0, abs_zero_le_maxTime⟩
  code := "code"
  expectedCode := "code"

def sameUrls : Urls where
  zUrl := some
  htu := some
  allowInsecureUrls := false

/-- A callback that accepts every signature under one key, and one digest for every text. -/
def anyKey : Callbacks where
  verifyJws := fun _ _ => .ok {
    verified := true
    signerJwk := obj [("kty", str "EC"), ("crv", str "P-256"), ("x", str "AA"), ("y", str "AA")] }
  hash := fun _ => [0, 0, 0]

def plainPkce : VerifyAccessTokenRequestPkce where
  codeVerifier := some "verifier"
  codeChallenge := "verifier"
  codeChallengeMethod := "plain"

/-- The proof with the claims `jti` 1, `htm` POST, `htu` https://as.example/token and `iat` 0, under
a key on P-256. -/
def provenKey : VerifyAccessTokenRequestDpop where
  required := true
  jwt := some ("eyJ0eXAiOiJkcG9wK2p3dCIsImFsZyI6IkVTMjU2IiwiandrIjp7Imt0eSI6IkVDIiwiY3J2IjoiUC" ++
    "0yNTYiLCJ4IjoiQUEiLCJ5IjoiQUEifX0.eyJqdGkiOiIxIiwiaHRtIjoiUE9TVCIsImh0dSI6Imh0dHBzOi8vYXMu" ++
    "ZXhhbXBsZS90b2tlbiIsImlhdCI6MH0.AA")
  expectedJwkThumbprint := some "AAAA"

/-- A code that is redeemed with the code verifier and with a proof under the expected key. -/
theorem redeeming_enforced : ∃ result,
    verifyAuthorizationCodeAccessTokenRequest sameUrls anyKey
      (redeeming (some plainPkce) (some provenKey)) = .ok result ∧
      AuthorizationCodeOk (redeeming (some plainPkce) (some provenKey)) ∧
        Bindings sameUrls anyKey
          (redeeming (some plainPkce) (some provenKey)).toVerifyAccessTokenRequestOptions result ∧
          ∃ proof, result.dpop = some proof ∧ proof.jwkThumbprint = "AAAA" := by
  have hrun : (verifyAuthorizationCodeAccessTokenRequest sameUrls anyKey
      (redeeming (some plainPkce) (some provenKey))).toOption.isSome = true := by decide +kernel
  obtain ⟨result, hok⟩ := exists_of_isSome hrun
  have hchecked : Checked
      (redeeming (some plainPkce) (some provenKey)).toVerifyAccessTokenRequestOptions := by
    refine ⟨fun dpop heq _ => ?_, fun pkce heq hempty => ?_⟩
    · cases heq
      rfl
    · cases heq
      exact absurd hempty (by decide)
  obtain ⟨hcode, hbindings⟩ := ((grants_enforced sameUrls anyKey).2.1 _ _ hok).mpr hchecked
  obtain ⟨proof, hproof⟩ :=
    Option.isSome_iff_exists.mp (hbindings.dpop.present provenKey rfl (.inl rfl))
  obtain ⟨dpop, _, _, _, hdpop, _, _, _, _, hexpected⟩ := hbindings.dpop.proved proof hproof
  cases hdpop
  exact ⟨result, hok, hcode, hbindings, proof, hproof, (hexpected "AAAA" rfl).symm⟩

/-- A server that expects a DPoP key accepts a request without a proof. -/
theorem expectedKey_skipped : ∃ urls callbacks options result,
    verifyAuthorizationCodeAccessTokenRequest urls callbacks options = .ok result ∧
      ¬ Bindings urls callbacks options.toVerifyAccessTokenRequestOptions result := by
  let dpop : VerifyAccessTokenRequestDpop := { expectedJwkThumbprint := some "thumbprint" }
  refine ⟨sameUrls, anyKey, redeeming none (some dpop),
    { dpop := none, clientAttestation := none }, ?_, ?_⟩
  · rfl
  · intro hbindings
    have hsome := hbindings.dpop.present dpop rfl (.inr rfl)
    cases hsome

end IdentityCommon.Oauth2
