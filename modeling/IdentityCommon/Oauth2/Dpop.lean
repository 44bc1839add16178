import IdentityCommon.Oauth2.Callbacks

/-!
# DPoP proofs

A DPoP proof: a JWT under the key in its header, for one request, one access token and a short time.

## Main definitions

- `zDpopJwtHeader`, `zDpopJwtPayload` — the header and the payload of a proof
- `DpopVerificationOptions`, `VerifyDpopJwtOptions`, `verifyDpopJwt` — what a proof is verified
  against, and the checks
- `DpopVerified` — what is known of a proof that is verified
- `extractDpopJwtFromHeaders` — the proof of a request

## Main results

- `verifyDpopJwt_eq_ok` — a proof that passes the checks is verified
-/

namespace IdentityCommon.Oauth2

open Ecma AssocList Value Common Jose IdentityCommon.Except

def zDpopJwtPayload (urls : Urls) : Schema :=
  looseObject (overrideShape jwtPayloadShape
    [("iat", zNumericDate), ("htu", zHttpsUrl urls), ("htm", zHttpMethod), ("jti", zNonEmptyString),
      ("ath", optional zNonEmptyString)])

def zDpopJwtHeader : Schema :=
  looseObject (overrideShape headerShape [("typ", zTyp "dpop+jwt"), ("jwk", zJwk)])

structure DpopVerificationOptions where
  allowedSigningAlgs : Option (List String) := none
  maxProofAgeSeconds : Option Double := none
  expectedNonce : Option String := none
  allowedSkewInSeconds : Option Double := none
  /-- Whether a proof with this thumbprint is used for the first time; none where it is not
  asked. -/
  assertJtiUniqueness : Option (DecodedJwt → String → Except String Bool) := none

structure VerifyDpopJwtOptions extends DpopVerificationOptions where
  dpopJwt : String
  request : RequestLike
  accessToken : Option String := none
  expectedJwkThumbprint : Option String := none
  now : Date

structure VerifyDpopJwtResult where
  header : Value
  payload : Value
  jwkThumbprint : String

/-- A maximum age of 300 seconds where there is no other. -/
def VerifyDpopJwtOptions.maxAgeSeconds (options : VerifyDpopJwtOptions) : Double :=
  options.maxProofAgeSeconds.getD (.finite (.ofInt 300 abs_threeHundred_le))

def VerifyDpopJwtOptions.claims (options : VerifyDpopJwtOptions) : VerifyJwtClaimsOptions where
  now := options.now
  skewSeconds := options.allowedSkewInSeconds
  expectedNonce := options.expectedNonce
  maxAgeSeconds := options.maxAgeSeconds

/-- The text of a member. -/
def textMember (value : Value) (key : String) : String := (textOf (value.get key)).getD ""

section

variable (urls : Urls) (callbacks : Callbacks) (options : VerifyDpopJwtOptions)

def decodeDpopJwt : Except Oauth2Error DecodedJwt :=
  (decodeJwt {
    jwt := options.dpopJwt
    headerSchema := zDpopJwtHeader
    payloadSchema := zDpopJwtPayload urls }).mapError .jose

def checkSigningAlg (header : Value) : Except Oauth2Error Unit :=
  check (options.allowedSigningAlgs.all (textMember header "alg" ∈ ·))
    (.oauth2 ("dpop jwt uses alg value '" ++ textMember header "alg" ++
      "' but allowed dpop signging alg values are " ++
      ", ".intercalate (options.allowedSigningAlgs.getD []) ++ "."))

def checkHtm (payload : Value) : Except Oauth2Error Unit :=
  check (options.request.method = textMember payload "htm")
    (.oauth2 ("Dpop jwt contains htm value '" ++ textMember payload "htm" ++
      "', but expected htm value '" ++ options.request.method ++ "'"))

def htuFromRequestUrl (url : String) : Except Oauth2Error String :=
  match urls.htu url with
  | some htu => .ok htu
  | none => .error (.other "Invalid URL")

def checkHtu (payload : Value) : Except Oauth2Error Unit := do
  let expectedHtu ← htuFromRequestUrl urls options.request.url
  let htu ← htuFromRequestUrl urls (textMember payload "htu")
  check (expectedHtu = htu) (.oauth2 ("Dpop jwt contains htu value '" ++ textMember payload "htu" ++
    "', but expected htu value '" ++ expectedHtu ++ "'."))

def checkAth (payload : Value) : Except Oauth2Error Unit :=
  match nonEmpty options.accessToken with
  | none => .ok ()
  | some accessToken => do
    let expectedAth := base64url (callbacks.hash accessToken)
    check (textMember payload "ath" ≠ "")
      (.oauth2 ("Dpop jwt does not have a ath value, but expected ath value '" ++
        expectedAth ++ "'."))
    check (textMember payload "ath" = expectedAth)
      (.oauth2 ("Dpop jwt contains ath value '" ++ textMember payload "ath" ++
      "', but expected ath value '" ++ expectedAth ++ "'."))

def checkThumbprint (jwkThumbprint : String) : Except Oauth2Error Unit :=
  check ((nonEmpty options.expectedJwkThumbprint).all (· = jwkThumbprint))
    (.oauth2 ("Dpop is signed with jwk with thumbprint value '" ++ jwkThumbprint ++
      "', but expect jwk thumbprint value '" ++ options.expectedJwkThumbprint.getD "" ++ "'"))

def checkJti (decodedDpopJwt : DecodedJwt) (jwkThumbprint : String) : Except Oauth2Error Unit :=
  match options.assertJtiUniqueness with
  | none => .ok ()
  | some assertJtiUniqueness => do
    let isUnique ← (assertJtiUniqueness decodedDpopJwt jwkThumbprint).mapError .other
    check isUnique (.oauth2 ("Dpop jwt with jti value '" ++
      textMember decodedDpopJwt.payload "jti" ++ "' has already been used."))

/-- What the signature and the claims of a proof are verified against: the key in its header. -/
def dpopJwtOptions (decodedDpopJwt : DecodedJwt) : VerifyJwtOptions where
  jwt := decodedDpopJwt
  signer := some (.jwk (decodedDpopJwt.header.get "jwk")
    (textMember decodedDpopJwt.header "alg") none)
  claims := options.claims
  errorMessage := "dpop jwt verification failed"

def checkDpopJwt : Except Oauth2Error VerifyDpopJwtResult := do
  let decodedDpopJwt ← decodeDpopJwt urls options
  checkSigningAlg options decodedDpopJwt.header
  checkHtm options decodedDpopJwt.payload
  checkHtu urls options decodedDpopJwt.payload
  checkAth callbacks options decodedDpopJwt.payload
  let jwkThumbprint ← (calculateJwkThumbprint callbacks.hash
    (decodedDpopJwt.header.get "jwk")).mapError .jose
  checkThumbprint options jwkThumbprint
  let _ ← (verifyJwt callbacks.verifyJws (dpopJwtOptions options decodedDpopJwt)).mapError .jwt
  checkJti options decodedDpopJwt jwkThumbprint
  return { header := decodedDpopJwt.header, payload := decodedDpopJwt.payload, jwkThumbprint }

/-- A wrong option is a mistake of the server, not of the proof. -/
def dpopError (error : Oauth2Error) : Oauth2Error :=
  if error.isIdentityError && !error.isInvalidArgument then
    .serverErrorCaused "invalid_dpop_proof" "" error
  else error

def verifyDpopJwt : Except Oauth2Error VerifyDpopJwtResult :=
  (checkDpopJwt urls callbacks options).mapError dpopError

end

/-- The proof in the headers of a request: none, one that is not a compact JWT, or one that is. -/
def extractDpopJwtFromHeaders (request : RequestLike) : Option (Option String) :=
  match nonEmpty (request.header "DPoP") with
  | none => some none
  | some dpopJwt => if isCompactJwt dpopJwt then some (some dpopJwt) else none

/-! ## Proofs that are verified -/

/-- A proof that is verified: a JWT under the key in its header, accepted by the callback, for the
method and the URL of the request, and for the access token if there is one, with the expected
nonce, and not too old. -/
structure DpopVerified (urls : Urls) (callbacks : Callbacks) (options : VerifyDpopJwtOptions)
    (jwt : DecodedJwt) (result : VerifyDpopJwtResult) : Prop where
  decodes : decodeDpopJwt urls options = .ok jwt
  header : result.header = jwt.header
  payload : result.payload = jwt.payload
  method : options.request.method = textMember jwt.payload "htm"
  url : ∃ htu, urls.htu options.request.url = some htu ∧
    urls.htu (textMember jwt.payload "htu") = some htu
  ath : ∀ accessToken, nonEmpty options.accessToken = some accessToken →
    textMember jwt.payload "ath" = base64url (callbacks.hash accessToken)
  thumbprint : calculateJwkThumbprint callbacks.hash (jwt.header.get "jwk") =
    .ok result.jwkThumbprint
  expected : ∀ thumbprint, nonEmpty options.expectedJwkThumbprint = some thumbprint →
    thumbprint = result.jwkThumbprint
  signature : ∃ publicJwk, Accepts callbacks.verifyJws
    (.jwk (jwt.header.get "jwk") (textMember jwt.header "alg") none) jwt.context publicJwk
  usable : options.claims.Usable
  claims : ClaimsOk jwt.registeredPayload options.claims

/-- A proof that passes the checks is verified. -/
theorem verifyDpopJwt_eq_ok {urls : Urls} {callbacks : Callbacks} {options : VerifyDpopJwtOptions}
    {result : VerifyDpopJwtResult} (h : verifyDpopJwt urls callbacks options = .ok result) :
    ∃ jwt, DpopVerified urls callbacks options jwt result := by
  have h := mapError_eq_ok.mp h
  obtain ⟨jwt, hdecodes, h⟩ := bind_eq_ok.mp h
  obtain ⟨_, _, h⟩ := bind_eq_ok.mp h
  obtain ⟨_, hhtm, h⟩ := bind_eq_ok.mp h
  obtain ⟨_, hhtu, h⟩ := bind_eq_ok.mp h
  obtain ⟨_, hath, h⟩ := bind_eq_ok.mp h
  obtain ⟨jwkThumbprint, hthumbprint, h⟩ := bind_eq_ok.mp h
  obtain ⟨_, hexpected, h⟩ := bind_eq_ok.mp h
  obtain ⟨signer, hverified, h⟩ := bind_eq_ok.mp h
  obtain ⟨_, _, h⟩ := bind_eq_ok.mp h
  cases h
  obtain ⟨haccepts, hsigner, husable, hclaims⟩ := verifyJwt_eq_ok (mapError_eq_ok.mp hverified)
  refine ⟨jwt, hdecodes, rfl, rfl, ?_, ?_, ?_, mapError_eq_ok.mp hthumbprint, ?_,
    ⟨signer.publicJwk, ?_⟩, husable, hclaims⟩
  · exact of_decide_eq_true (check_eq_ok.mp hhtm)
  · have htext : ∀ {url htu : String}, htuFromRequestUrl urls url = .ok htu →
        urls.htu url = some htu := by
      intro url htu hok
      unfold htuFromRequestUrl at hok
      split at hok
      · next heq =>
        cases hok
        exact heq
      · cases hok
    obtain ⟨expectedHtu, hexpectedHtu, hhtu⟩ := bind_eq_ok.mp hhtu
    obtain ⟨htu, hhtuOk, hsame⟩ := bind_eq_ok.mp hhtu
    obtain rfl : expectedHtu = htu := of_decide_eq_true (check_eq_ok.mp hsame)
    exact ⟨expectedHtu, htext hexpectedHtu, htext hhtuOk⟩
  · intro accessToken htoken
    rw [checkAth, htoken] at hath
    obtain ⟨_, _, hath⟩ := bind_eq_ok.mp hath
    exact of_decide_eq_true (check_eq_ok.mp hath)
  · intro thumbprint hsome
    have hall := check_eq_ok.mp hexpected
    rw [hsome] at hall
    exact of_decide_eq_true hall
  · have heq := Except.ok.inj hsigner
    rw [← heq] at haccepts
    exact haccepts

end IdentityCommon.Oauth2
