import IdentityCommon.Jose.JwkSet
import IdentityCommon.Jose.Jwt
import IdentityCommon.Oauth2.Fetch

/-!
# Access tokens

The two ways that a resource server verifies an access token: as a JWT of one of its authorization
servers, and by asking one of them.

## Main definitions

- `ResourceCallbacks` — the callbacks of a resource server
- `zAccessTokenProfileJwtHeader`, `zAccessTokenProfileJwtPayload`, `zTokenIntrospectionResponse` —
  schemas
- `verifyJwtProfileAccessToken`, `introspectToken` — the two ways
- `Respects` — a token that is for a resource server, and within its validity window
- `JwtProfileVerified` — what is known of a JWT that is verified

## Main results

- `verifyJwtProfileAccessToken_eq_ok` — a JWT that passes the checks is verified
-/

namespace IdentityCommon.Oauth2

open Ecma AssocList Value Common Jose IdentityCommon.Except

/-- An array that is a text only needs one that is not empty. -/
def zAudience : Schema := union zNonEmptyString (array zNonEmptyString)

def zAccessTokenProfileJwtHeader : Schema :=
  looseObject (overrideShape headerShape [("typ", zTyp "at+jwt")])

def accessTokenProfileShape : List (String × Schema) :=
  overrideShape jwtPayloadShape
    [("iss", zNonEmptyString), ("exp", zNumericDate), ("iat", zNumericDate), ("aud", zAudience),
      ("sub", zNonEmptyString), ("client_id", optional zNonEmptyString), ("jti", zNonEmptyString),
      ("scope", optional zNonEmptyString)]

def zAccessTokenProfileJwtPayload : Schema := looseObject accessTokenProfileShape

def zTokenIntrospectionRequest : Schema :=
  looseObject [("token", zNonEmptyString), ("token_type_hint", optional zStringOrUri)]

def zTokenIntrospectionResponse : Schema :=
  looseObject
    [("active", zBoolean), ("scope", optional zNonEmptyString),
      ("client_id", optional zNonEmptyString), ("username", optional zStringOrUri),
      ("token_type", optional zNonEmptyString), ("exp", optional zNumericDate),
      ("iat", optional zNumericDate), ("nbf", optional zNumericDate),
      ("sub", optional zNonEmptyString), ("aud", optional zAudience),
      ("iss", optional zNonEmptyString), ("jti", optional zNonEmptyString),
      ("cnf", optional zJwtConfirmation)]

/-! ## Authorization servers -/

/-- The request that a client authenticates. -/
structure ClientAuthenticationRequest where
  url : String
  method : String
  authorizationServerMetadata : AuthorizationServerMetadata
  body : Value
  contentType : String
  headers : Headers

structure ResourceCallbacks extends Callbacks where
  fetch : Fetch
  /-- The keys of a URL; `undefined` where they are to be fetched. -/
  getJwks : String → Except String Value := fun _ => .ok undefined
  /-- The headers and the body with the authentication added. -/
  clientAuthentication : ClientAuthenticationRequest → Except String (Headers × Value)

def fetchJwks (callbacks : ResourceCallbacks) (n : ℕ) (jwksUrl : String) :
    Except Oauth2Error Value := do
  let providedJwks ← (callbacks.getJwks jwksUrl).mapError .other
  if providedJwks.truthy then
    match zJwkSet providedJwks with
    | some jwks => .ok jwks
    | none => .error (.validation
        ("Validation of JWKs provided by the 'getJwks' callback for jwks_uri '" ++ jwksUrl ++
        "' failed"))
  else
    let (response, result) ← fetchWithZod callbacks.fetch n zJwkSet [CommonMediaTypes.JwkSet,
      CommonMediaTypes.Json]
      { url := jwksUrl }
    if !response.ok then
      .error (.fetch
        (s!"Fetching JWKs from jwks_uri '{jwksUrl}' resulted in an unsuccessful response with " ++
         s!"status code '{response.status}'."))
    else match result.join with
      | some jwks => .ok jwks
      | none => .error (.validation ("Validation of JWKs from jwks_uri '" ++ jwksUrl ++ "' failed"))

def extractJwkFromJwksForJwt (jwks : Value) (kid : Option String) (use : String) :
    Except Oauth2Error Value :=
  (extractJwkFromJwkSet jwks kid use).mapError .oauth2

/-! ## JWT profile access tokens -/

structure VerifyJwtProfileAccessTokenOptions where
  accessToken : String
  now : Date
  allowedSkewInSeconds : Option Double := none
  resourceServer : String
  authorizationServers : List AuthorizationServerMetadata

def VerifyJwtProfileAccessTokenOptions.claims (options : VerifyJwtProfileAccessTokenOptions) :
    VerifyJwtClaimsOptions where
  now := options.now
  skewSeconds := options.allowedSkewInSeconds
  expectedAudience := some [options.resourceServer]

def accessTokenOptions (accessToken : String) : DecodeJwtOptions where
  jwt := accessToken
  headerSchema := zAccessTokenProfileJwtHeader
  payloadSchema := zAccessTokenProfileJwtPayload

/-- An access token as a JWT. -/
def decodeAccessToken (accessToken : String) : Except JoseError DecodedJwt :=
  decodeJwt (accessTokenOptions accessToken)

def findAuthorizationServer (payload : Value) (servers : List AuthorizationServerMetadata) :
    Except Oauth2Error AuthorizationServerMetadata :=
  match servers.find? fun server => textOf (payload.get "iss") = some server.issuer with
  | some server => .ok server
  | none => .error (.oauth2
      ("Access token jwt contains unrecognized authorization server 'iss' value of '" ++
      (textOf (payload.get "iss")).getD "" ++ "'"))

def jwksUrlOf (server : AuthorizationServerMetadata) : Except Oauth2Error String :=
  match nonEmpty server.jwksUri with
  | some jwksUrl => .ok jwksUrl
  | none => .error (.oauth2 ("Authorization server '" ++ server.issuer ++
      "' does not have a 'jwks_uri' parameter to fetch JWKs."))

/-- The signer of an access token: a key of its authorization server. -/
def accessTokenSigner (jwt : DecodedJwt) (publicJwk : Value) : JwsSigner :=
  .jwk publicJwk ((textOf (jwt.header.get "alg")).getD "") none

def verifyJwtProfileAccessToken (callbacks : ResourceCallbacks)
    (options : VerifyJwtProfileAccessTokenOptions) :
    Except Oauth2Error (DecodedJwt × AuthorizationServerMetadata) := do
  let decodedJwt ← (decodeAccessToken options.accessToken).mapError .jose
  let authorizationServer ← findAuthorizationServer decodedJwt.payload options.authorizationServers
  let jwksUrl ← jwksUrlOf authorizationServer
  let jwks ← fetchJwks callbacks 0 jwksUrl
  let publicJwk ← extractJwkFromJwksForJwt jwks (textOf (decodedJwt.header.get "kid")) "sig"
  let _ ← (verifyJwt callbacks.verifyJws {
    jwt := decodedJwt
    signer := some (accessTokenSigner decodedJwt publicJwk)
    claims := options.claims
    errorMessage := "Error during verification of access token jwt." }).mapError .jwt
  return (decodedJwt, authorizationServer)

/-! ## Token introspection -/

structure IntrospectTokenOptions where
  authorizationServerMetadata : AuthorizationServerMetadata
  token : String
  tokenTypeHint : Option String := none

def introspectionRequestOf (options : IntrospectTokenOptions) : Except Oauth2Error Value :=
  let request := obj [("token", str options.token),
    ("token_type_hint", (options.tokenTypeHint.map str).getD undefined)]
  match zTokenIntrospectionRequest request with
  | some request => .ok request
  | none => .error (.validation "")

def introspectionEndpointOf (server : AuthorizationServerMetadata) : Except Oauth2Error String :=
  match nonEmpty server.introspectionEndpoint with
  | some endpoint => .ok endpoint
  | none => .error (.oauth2
      "Missing required 'introspection_endpoint' parameter in authorization server metadata")

/-- The answer in a response. -/
def introspectionAnswer (endpoint : String) (response : FetchResponse)
    (result : Option (Option Value)) : Except Oauth2Error Value :=
  match response.ok, result.join with
  | true, some answer => .ok answer
  | _, _ =>
    .error (.fetch
      (s!"Unable to introspect token from '{endpoint}'. Received response with status " ++
       s!"{response.status}"))

def introspectToken (callbacks : ResourceCallbacks) (n : ℕ) (options : IntrospectTokenOptions) :
    Except Oauth2Error Value := do
  let introspectionRequest ← introspectionRequestOf options
  let introspectionEndpoint ← introspectionEndpointOf options.authorizationServerMetadata
  let (headers, body) ← (callbacks.clientAuthentication {
    url := introspectionEndpoint
    method := "POST"
    authorizationServerMetadata := options.authorizationServerMetadata
    body := introspectionRequest
    contentType := CommonMediaTypes.XWwwFormUrlencoded
    headers := [("content-type", CommonMediaTypes.XWwwFormUrlencoded)] }).mapError .other
  let (response, result) ← fetchWithZod callbacks.fetch n zTokenIntrospectionResponse
    [CommonMediaTypes.Json]
    { url := introspectionEndpoint, method := "POST", headers, body }
  introspectionAnswer introspectionEndpoint response result

/-! ## Tokens that are verified -/

/-- A token is for a resource server if it says for whom it is, and is used within its validity
window. -/
structure Respects (payload : Value) (resourceServer : String) (claims : VerifyJwtClaimsOptions) :
    Prop where
  audience : payload.get "aud" = undefined ∨ str resourceServer ∈ asArray (payload.get "aud")
  expirationTime : NumericDateOk true "exp" payload (isExpired claims)
  notBefore : NumericDateOk true "nbf" payload (isInFuture claims)

/-- A JWT of an authorization server, with a signature that is accepted for one of its keys, that is
for the resource server and not expired. -/
structure JwtProfileVerified (callbacks : ResourceCallbacks)
    (options : VerifyJwtProfileAccessTokenOptions) (jwt : DecodedJwt)
    (server : AuthorizationServerMetadata) : Prop where
  decodes : decodeAccessToken options.accessToken = .ok jwt
  known : server ∈ options.authorizationServers
  issuer : jwt.payload.get "iss" = str server.issuer
  signature : ∃ jwksUrl jwks jwk publicJwk, server.jwksUri = some jwksUrl ∧
    fetchJwks callbacks 0 jwksUrl = .ok jwks ∧
    jwk ∈ keysOf jwks ∧ Accepts callbacks.verifyJws
      (accessTokenSigner jwt jwk) jwt.context publicJwk
  usable : options.claims.Usable
  expires : ∃ n, jwt.payload.get "exp" = num n ∧ (Double.ofNumber n).isFinite = true ∧
    isExpired options.claims (Double.ofNumber n) = false
  respects : Respects jwt.payload options.resourceServer options.claims

theorem exact_zAudience : Exact zAudience :=
  exact_union exact_zNonEmptyString exact_zNonEmptyString.array

theorem nodup_accessTokenProfileShape : (keys accessTokenProfileShape).Nodup := by decide +kernel

/-- The claims of an access token that are verified are those of its payload. -/
theorem get_registered {accessToken : String} {jwt : DecodedJwt}
    (h : decodeAccessToken accessToken = .ok jwt) :
    jwt.payload.get "aud" = jwt.registeredPayload.get "aud" ∧
    jwt.payload.get "exp" = jwt.registeredPayload.get "exp" ∧
      jwt.payload.get "nbf" = jwt.registeredPayload.get "nbf" := by
  obtain ⟨headerJson, payloadJson, hdecoded⟩ := decodeJwt_eq_ok h
  have hget : ∀ {key : String} {schema schema' : Schema},
      accessTokenProfileShape.lookup key = some schema →
      jwtPayloadShape.lookup key = some schema' → Keeps schema → Keeps schema' →
        jwt.payload.get key = jwt.registeredPayload.get key := fun hs hs' hkeeps hkeeps' =>
    get_eq_get nodup_accessTokenProfileShape (by decide) (mem_of_lookup hs)
      (mem_of_lookup hs') hkeeps hkeeps' hdecoded.payload hdecoded.registeredPayload
  have hdate : Keeps zNumericDate := exact_zNumericDate.keeps
  refine ⟨hget rfl rfl ?_ ?_, hget rfl rfl hdate hdate.optional,
    hget rfl rfl hdate.optional hdate.optional⟩
  · exact exact_zAudience.keeps
  · exact (exact_union exact_zStringOrUri exact_zStringOrUri.array).keeps.optional

/-- An access token as a JWT says when it expires. -/
theorem expires_of_decode {accessToken : String} {jwt : DecodedJwt}
    (h : decodeAccessToken accessToken = .ok jwt) :
    ∃ n, jwt.payload.get "exp" = num n := by
  obtain ⟨headerJson, payloadJson, hdecoded⟩ := decodeJwt_eq_ok h
  have hexp : ("exp", zNumericDate) ∈ accessTokenProfileShape := mem_of_lookup rfl
  have haccepts := accepts_get nodup_accessTokenProfileShape hexp rfl exact_zNumericDate.keeps
    hdecoded.payload
  unfold zNumericDate at haccepts
  split at haccepts
  · next n heq => exact ⟨n, heq⟩
  · cases haccepts

theorem findAuthorizationServer_eq_ok {payload : Value} {servers : List AuthorizationServerMetadata}
    {server : AuthorizationServerMetadata}
    (h : findAuthorizationServer payload servers = .ok server) :
    server ∈ servers ∧ payload.get "iss" = str server.issuer := by
  unfold findAuthorizationServer at h
  split at h
  · next hfind =>
    cases h
    have hissuer := List.find?_some hfind
    rw [decide_eq_true_eq] at hissuer
    exact ⟨List.mem_of_find?_eq_some hfind, textOf_eq_some.mp hissuer⟩
  · cases h

/-- A payload whose confirmation names no key, or names it by a thumbprint. -/
def HasConfirmation (payload : Value) : Prop :=
  (payload.get "cnf").get "jkt" = undefined ∨
  ∃ jkt, (payload.get "cnf").get "jkt" = str jkt ∧ jkt ≠ ""

theorem hasConfirmation {shape : List (String × Schema)} (hn : (keys shape).Nodup)
    (hs : ("cnf", optional zJwtConfirmation) ∈ shape) {v payload : Value}
    (h : looseObject shape v = some payload) :
    HasConfirmation payload := by
  rcases get_optional hn hs rfl h with habsent | ⟨u, hu⟩
  · rw [HasConfirmation, habsent]
    exact .inl rfl
  · exact jkt_zJwtConfirmation hu

theorem hasConfirmation_of_decode {accessToken : String} {jwt : DecodedJwt}
    (h : decodeAccessToken accessToken = .ok jwt) :
    HasConfirmation jwt.payload := by
  obtain ⟨headerJson, payloadJson, hdecoded⟩ := decodeJwt_eq_ok h
  exact hasConfirmation nodup_accessTokenProfileShape (mem_of_lookup rfl) hdecoded.payload

/-- A JWT that passes the checks is verified. -/
theorem verifyJwtProfileAccessToken_eq_ok {callbacks : ResourceCallbacks}
    {options : VerifyJwtProfileAccessTokenOptions} {jwt : DecodedJwt}
    {server : AuthorizationServerMetadata}
    (h : verifyJwtProfileAccessToken callbacks options = .ok (jwt, server)) :
    JwtProfileVerified callbacks options jwt server := by
  obtain ⟨decoded, hdecodes, h⟩ := bind_eq_ok.mp h
  obtain ⟨found, hfound, h⟩ := bind_eq_ok.mp h
  obtain ⟨jwksUrl, hjwksUrl, h⟩ := bind_eq_ok.mp h
  obtain ⟨jwks, hjwks, h⟩ := bind_eq_ok.mp h
  obtain ⟨jwk, hjwk, h⟩ := bind_eq_ok.mp h
  obtain ⟨signer, hverified, h⟩ := bind_eq_ok.mp h
  cases h
  have hdecodes := mapError_eq_ok.mp hdecodes
  obtain ⟨haccepts, hsigner, husable, hclaims⟩ := verifyJwt_eq_ok (mapError_eq_ok.mp hverified)
  obtain ⟨hknown, hissuer⟩ := findAuthorizationServer_eq_ok hfound
  obtain ⟨haud, hexp, hnbf⟩ := get_registered hdecodes
  obtain ⟨n, hn⟩ := expires_of_decode hdecodes
  have hexpires := hclaims.expirationTime rfl
  have hurl : server.jwksUri = some jwksUrl := by
    unfold jwksUrlOf at hjwksUrl
    split at hjwksUrl
    · next heq =>
      cases hjwksUrl
      exact (nonEmpty_eq_some.mp heq).1
    · cases hjwksUrl
  refine ⟨hdecodes, hknown, hissuer, ⟨jwksUrl, jwks, jwk, signer.publicJwk, hurl, hjwks, ?_, ?_⟩,
    husable, ?_, ?_⟩
  · exact (mem_of_extractJwkFromJwkSet (mapError_eq_ok.mp hjwk)).1
  · have heq := Except.ok.inj hsigner
    rw [← heq] at haccepts
    exact haccepts
  · rw [hexp] at hn ⊢
    rcases hexpires with habsent | hpresent
    · rw [hn] at habsent
      cases habsent
    · exact hpresent
  · refine ⟨.inr ?_, fun _ => ?_, fun _ => ?_⟩
    · obtain ⟨s, hs, haudience⟩ := hclaims.audience _ rfl
      rw [haud, ← List.mem_singleton.mp hs]
      exact haudience
    · rw [hexp]
      exact hexpires
    · rw [hnbf]
      exact hclaims.notBefore rfl

/-- An answer is what its schema returns for the body of a response. -/
theorem introspectToken_eq_ok {callbacks : ResourceCallbacks} {n : ℕ}
    {options : IntrospectTokenOptions} {answer : Value}
    (h : introspectToken callbacks n options = .ok answer) :
    ∃ body, zTokenIntrospectionResponse body = some answer := by
  obtain ⟨_, _, h⟩ := bind_eq_ok.mp h
  obtain ⟨_, _, h⟩ := bind_eq_ok.mp h
  obtain ⟨⟨_, _⟩, _, h⟩ := bind_eq_ok.mp h
  obtain ⟨⟨response, result⟩, hfetch, h⟩ := bind_eq_ok.mp h
  change introspectionAnswer _ response result = .ok answer at h
  unfold introspectionAnswer at h
  split at h
  · next hresult =>
    cases h
    obtain rfl := Option.join_eq_some_iff.mp hresult
    exact fetchWithZod_eq_ok hfetch
  · cases h

/-- An answer says whether the token is active. -/
theorem active_of_introspectToken {callbacks : ResourceCallbacks} {n : ℕ}
    {options : IntrospectTokenOptions} {answer : Value}
    (h : introspectToken callbacks n options = .ok answer) :
    ∃ b, answer.get "active" = .bool b := by
  obtain ⟨body, hbody⟩ := introspectToken_eq_ok h
  have haccepts := accepts_get (by decide) List.mem_cons_self rfl exact_zBoolean.keeps hbody
  unfold zBoolean at haccepts
  split at haccepts
  · next b heq => exact ⟨b, heq⟩
  · cases haccepts

theorem hasConfirmation_of_introspectToken {callbacks : ResourceCallbacks} {n : ℕ}
    {options : IntrospectTokenOptions} {answer : Value}
    (h : introspectToken callbacks n options = .ok answer) : HasConfirmation answer := by
  obtain ⟨body, hbody⟩ := introspectToken_eq_ok h
  exact hasConfirmation (by decide) (mem_of_lookup rfl) hbody

end IdentityCommon.Oauth2
