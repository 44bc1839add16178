import IdentityCommon.Oauth2.AccessToken
import IdentityCommon.Oauth2.Dpop

/-!
# Resource requests

A request to a resource server: the access token in its `Authorization` header, verified as a JWT or
by introspection, and the DPoP proof that a bound token needs.

## Main definitions

- `verifyResourceRequest`, `isOpaqueAccessToken` — the checks of a request, and the tokens that are
  introspected
- `Accepted` — a request with a valid token, that is for this resource server and properly bound
- `Presents` — the scheme, the token and the payload of a request
- `Guarded` — what the checks leave to the request and to the authorization servers

## Main results

- `accepted_iff_guarded` — a request that passes the checks has a valid, properly bound token if and
  only if it is guarded
-/

namespace IdentityCommon.Oauth2

open Ecma AssocList Value Common Jose IdentityCommon.Except

structure VerifyResourceRequestOptions where
  request : RequestLike
  resourceServer : String
  allowedAuthenticationSchemes : Option (List String) := none
  authorizationServers : List AuthorizationServerMetadata
  dpop : DpopVerificationOptions := {}
  now : Date
  allowedSkewInSeconds : Option Double := none

structure VerifyResourceRequestResult where
  tokenPayload : Value
  dpop : Option Value
  scheme : String
  accessToken : String
  authorizationServer : String

def supportedAuthenticationSchemes : List String := ["Bearer", "DPoP"]

namespace VerifyResourceRequestOptions

def schemes (options : VerifyResourceRequestOptions) : List String :=
  options.allowedAuthenticationSchemes.getD supportedAuthenticationSchemes

def jwtProfile (options : VerifyResourceRequestOptions) (accessToken : String) :
    VerifyJwtProfileAccessTokenOptions where
  accessToken := accessToken
  now := options.now
  allowedSkewInSeconds := options.allowedSkewInSeconds
  resourceServer := options.resourceServer
  authorizationServers := options.authorizationServers

/-- What the proof of a request is verified against. -/
def proof (options : VerifyResourceRequestOptions) (dpopJwt accessToken jkt : String)
    (signingAlgs : Option (List String)) : VerifyDpopJwtOptions where
  dpopJwt := dpopJwt
  request := options.request
  accessToken := some accessToken
  now := options.now
  expectedJwkThumbprint := some jkt
  allowedSigningAlgs := signingAlgs
  expectedNonce := options.dpop.expectedNonce
  maxProofAgeSeconds := options.dpop.maxProofAgeSeconds
  allowedSkewInSeconds := options.dpop.allowedSkewInSeconds.or options.allowedSkewInSeconds
  assertJtiUniqueness := options.dpop.assertJtiUniqueness

end VerifyResourceRequestOptions

/-! ## The authorization header -/

def authorizationHeaderOf (request : RequestLike) : Except Oauth2Error String :=
  match nonEmpty (request.header "Authorization") with
  | some authorizationHeader => .ok authorizationHeader
  | none => .error (.resourceUnauthorized "No 'Authorization' header provided in request.")

/-- The first two parts of a header. -/
def credentialsOf (authorizationHeader : String) : Except Oauth2Error (String × String) :=
  match split authorizationHeader ' ' with
  | providedScheme :: accessToken :: _ =>
    if providedScheme ≠ "" ∧ accessToken ≠ "" then .ok (providedScheme, accessToken)
    else .error (.resourceUnauthorized "Malformed 'Authorization' header provided in request.")
  | _ => .error (.resourceUnauthorized "Malformed 'Authorization' header provided in request.")

/-- The scheme as the server writes it. -/
def schemeOf (allowed : List String) (providedScheme : String) : Except Oauth2Error String :=
  let rejected := .error
    (.resourceUnauthorized ("Provided authentication scheme '" ++ providedScheme ++
    "' is not allowed. Allowed authentication schemes are " ++ quoted allowed ", " ++ "."))
  match allowed.find? fun allowedScheme => toLowerCase allowedScheme =
    toLowerCase providedScheme with
  | some scheme => if scheme ∈ supportedAuthenticationSchemes then .ok scheme else rejected
  | none => rejected

/-! ## The token -/

/-- Whether an access token does not decode as a JWT profile access token. -/
def isOpaqueAccessToken (accessToken : String) : Bool :=
  match decodeAccessToken accessToken with
  | .error (.parse _) | .error (.validation ..) => true
  | _ => false

/-- What a server is asked. -/
def introspection (scheme accessToken : String) (server : AuthorizationServerMetadata) :
    IntrospectTokenOptions where
  authorizationServerMetadata := server
  token := accessToken
  tokenTypeHint := some scheme

/-- The first answer that a token is active. Servers that do not answer are passed over. -/
def introspectFirst (callbacks : ResourceCallbacks) (accessToken scheme : String) :
    ℕ → List AuthorizationServerMetadata → Option (Value × AuthorizationServerMetadata)
  | _, [] => none
  | n, authorizationServerMetadata :: servers =>
    match introspectToken callbacks n
      (introspection scheme accessToken authorizationServerMetadata) with
    | .ok introspectionResult =>
      if (introspectionResult.get "active").truthy then
        some (introspectionResult, authorizationServerMetadata)
      else introspectFirst callbacks accessToken scheme (n + 1) servers
    | .error _ => introspectFirst callbacks accessToken scheme (n + 1) servers

def jwtProfileError (error : Oauth2Error) : Oauth2Error :=
  if error.isInvalidArgument then error else .resourceUnauthorizedCaused "invalid_token" error

def verifyToken (callbacks : ResourceCallbacks) (options : VerifyResourceRequestOptions)
    (scheme accessToken : String) : Except Oauth2Error (Value × AuthorizationServerMetadata) :=
  if isOpaqueAccessToken accessToken then
    match introspectFirst callbacks accessToken scheme 0 options.authorizationServers with
    | some found => .ok found
    | none => .error
        (.resourceUnauthorized "Could not verify token as jwt or using token introspection.")
  else do
    let (jwt, authorizationServer) ← (verifyJwtProfileAccessToken callbacks
      (options.jwtProfile accessToken)).mapError jwtProfileError
    return (jwt.payload, authorizationServer)

/-! ## The proof -/

/-- The thumbprint of the key that a token is bound to. -/
def jktOf (payload : Value) : Option String := nonEmpty (textOf ((payload.get "cnf").get "jkt"))

def requiresDpop (scheme : String) (payload : Value) : Bool :=
  scheme = "DPoP" || textOf (payload.get "token_type") = some "DPoP" || (jktOf payload).isSome

def dpopJwtOf (request : RequestLike) : Except Oauth2Error String :=
  match extractDpopJwtFromHeaders request with
  | none => .error (.resourceUnauthorized
      "Request contains a 'DPoP' header, but the value is not a valid DPoP jwt.")
  | some none => .error (.resourceUnauthorized "Request is missing required 'DPoP' header.")
  | some (some dpopJwt) => .ok dpopJwt

def requiredJkt (payload : Value) : Except Oauth2Error String :=
  match jktOf payload with
  | some jkt => .ok jkt
  | none => .error (.resourceUnauthorized
      "Token payload is missing required 'cnf.jkt' value for DPoP verification.")

def dpopProofError (error : Oauth2Error) : Oauth2Error :=
  if error.isInvalidArgument then error else .resourceUnauthorizedCaused "invalid_dpop_proof" error

section

variable (urls : Urls) (callbacks : ResourceCallbacks) (options : VerifyResourceRequestOptions)

/-- The key of the proof. -/
def verifyProof (accessToken : String) (payload : Value) (server : AuthorizationServerMetadata) :
    Except Oauth2Error Value := do
  let dpopJwt ← dpopJwtOf options.request
  let jkt ← requiredJkt payload
  let decodedDpopJwt ← (verifyDpopJwt urls callbacks.toCallbacks
    (options.proof dpopJwt accessToken jkt server.dpopSigningAlgValuesSupported)).mapError
      dpopProofError
  return decodedDpopJwt.header.get "jwk"

def dpopJwkOf (scheme accessToken : String) (payload : Value)
    (server : AuthorizationServerMetadata) : Except Oauth2Error (Option Value) :=
  if requiresDpop scheme payload then
    (verifyProof urls callbacks options accessToken payload server).map some
  else .ok none

def verifyResourceRequest : Except Oauth2Error VerifyResourceRequestResult := do
  check (options.schemes ≠ [])
    (.oauth2 ("Empty array provided for 'allowedAuthenticationSchemes', provide at least one " ++
      "allowed authentication scheme, or remove the value to allow all supported authentication " ++
      "schemes"))
  let authorizationHeader ← authorizationHeaderOf options.request
  let (providedScheme, accessToken) ← credentialsOf authorizationHeader
  let scheme ← schemeOf options.schemes providedScheme
  let (tokenPayload, authorizationServer) ← verifyToken callbacks options scheme accessToken
  let dpop ← dpopJwkOf urls callbacks options scheme accessToken tokenPayload authorizationServer
  return {
    tokenPayload, dpop, scheme, accessToken
    authorizationServer := authorizationServer.issuer }

end

/-! ## Properly bound tokens -/

/-- A token that is used with DPoP: by its scheme, by its type in any casing, or by the key that it
is bound to. -/
def UsesDpop (scheme : String) (payload : Value) : Prop :=
  scheme = "DPoP" ∨ (∃ s, payload.get "token_type" = str s ∧ toLowerCase s = "dpop") ∨
    (payload.get "cnf").get "jkt" ≠ undefined

/-- The proof in the headers of a request is verified, for an access token and under the key with a
thumbprint. -/
def ProvesPossession (urls : Urls) (callbacks : Callbacks) (request : RequestLike)
    (accessToken jkt : String) (jwk : Value) : Prop :=
  ∃ options jwt proof, request.header "DPoP" = some options.dpopJwt ∧ options.request = request ∧
    DpopVerified urls callbacks options jwt proof ∧
    textMember jwt.payload "ath" = base64url (callbacks.hash accessToken) ∧
    calculateJwkThumbprint callbacks.hash (jwt.header.get "jwk") = .ok jkt ∧
    jwk = jwt.header.get "jwk"

/-- The payload of a token is that of a JWT of one of the authorization servers, or what one of them
answers about a token that is no JWT. -/
inductive Issued (callbacks : ResourceCallbacks) (options : VerifyResourceRequestOptions)
    (scheme accessToken : String) :
    Value → AuthorizationServerMetadata → Prop
  | jwt {jwt : DecodedJwt} {server : AuthorizationServerMetadata}
      (verified : JwtProfileVerified callbacks (options.jwtProfile accessToken) jwt server) :
      Issued callbacks options scheme accessToken jwt.payload server
  | introspected {answer : Value} {server : AuthorizationServerMetadata} {n : ℕ}
      (opaqueToken : ∀ jwt, decodeAccessToken accessToken ≠ .ok jwt)
        (known : server ∈ options.authorizationServers)
      (answered : introspectToken callbacks n (introspection scheme accessToken server) =
        .ok answer)
      (active : answer.get "active" = .bool true) :
      Issued callbacks options scheme accessToken answer server

/-- A request with a token that is the whole credential, valid, for this resource server, and
properly bound. -/
structure Accepted (urls : Urls) (callbacks : ResourceCallbacks)
    (options : VerifyResourceRequestOptions) (result : VerifyResourceRequestResult) : Prop where
  credential : ∃ providedScheme, options.request.header "Authorization" =
    some (providedScheme ++ " " ++ result.accessToken) ∧
    ' ' ∉ providedScheme.toList ∧ result.scheme ∈ options.schemes ∧
    toLowerCase result.scheme = toLowerCase providedScheme
  issued : ∃ server, Issued callbacks options result.scheme result.accessToken
    result.tokenPayload server ∧
    result.authorizationServer = server.issuer
  respects : Respects result.tokenPayload options.resourceServer
    (options.jwtProfile result.accessToken).claims
  bound : UsesDpop result.scheme result.tokenPayload →
    ∃ jkt jwk, (result.tokenPayload.get "cnf").get "jkt" = str jkt ∧
    ProvesPossession urls callbacks.toCallbacks options.request result.accessToken jkt jwk ∧
    result.dpop = some jwk

/-! ## What is presented -/

/-- A request presents a token under a scheme, with the payload that it decodes to, or that the
first server answers that says it is active. -/
structure Presents (callbacks : ResourceCallbacks) (options : VerifyResourceRequestOptions)
    (header scheme accessToken : String) (payload : Value) : Prop where
  presented : options.request.header "Authorization" = some header
  token : ∃ providedScheme, credentialsOf header = .ok (providedScheme, accessToken) ∧
    schemeOf options.schemes providedScheme = .ok scheme
  decoded : isOpaqueAccessToken accessToken = false →
    ∃ jwt, decodeAccessToken accessToken = .ok jwt ∧ payload = jwt.payload
  answered : isOpaqueAccessToken accessToken = true → ∃ server,
    introspectFirst callbacks accessToken scheme 0 options.authorizationServers =
      some (payload, server)

/-- What the checks do not look at: what follows the token in its header, the audience and the
validity window in an answer of an authorization server, and a token type in another casing. -/
structure Guarded (callbacks : ResourceCallbacks) (options : VerifyResourceRequestOptions)
    (header scheme accessToken : String) (payload : Value) : Prop where
  oneSpace : (split header ' ').length = 2
  answer : isOpaqueAccessToken accessToken = true →
    Respects payload options.resourceServer (options.jwtProfile accessToken).claims
  tokenType : ∀ s, payload.get "token_type" = str s → toLowerCase s = "dpop" →
    s = "DPoP" ∨ scheme = "DPoP" ∨ (payload.get "cnf").get "jkt" ≠ undefined

/-! ## Checks that pass -/

theorem credentialsOf_eq_ok {header providedScheme accessToken : String}
    (h : credentialsOf header = .ok (providedScheme, accessToken)) :
    ∃ rest, split header ' ' = providedScheme :: accessToken :: rest ∧ accessToken ≠ "" := by
  unfold credentialsOf at h
  split at h
  · next rest heq =>
    split_ifs at h with hne
    cases h
    exact ⟨rest, heq, hne.2⟩
  · cases h

theorem schemeOf_eq_ok {allowed : List String} {providedScheme scheme : String}
    (h : schemeOf allowed providedScheme = .ok scheme) :
    scheme ∈ allowed ∧ toLowerCase scheme = toLowerCase providedScheme := by
  unfold schemeOf at h
  dsimp only at h
  split at h
  · next hfind =>
    split_ifs at h
    cases h
    have hsame := List.find?_some hfind
    rw [decide_eq_true_eq] at hsame
    exact ⟨List.mem_of_find?_eq_some hfind, hsame⟩
  · cases h

/-- The credential is the token if and only if the header has one space. -/
theorem credential_iff {header providedScheme accessToken : String} {rest : List String}
    (h : split header ' ' = providedScheme :: accessToken :: rest) :
    header = providedScheme ++ " " ++ accessToken ↔ (split header ' ').length = 2 := by
  have hjoin := join_split header ' '
  constructor
  · intro heq
    have hnot : ∀ part ∈ [providedScheme, accessToken], ' ' ∉ part.toList := by
      intro part hpart
      refine not_mem_of_mem_split (s := header) ?_
      rw [h]
      exact List.mem_append_left rest hpart
    have hsplit := split_join (List.cons_ne_nil _ _) hnot
    have htext : join [providedScheme, accessToken] ' ' = header := by
      rw [heq]
      apply String.toList_inj.mp
      simp [join]
    rw [← htext, hsplit]
    rfl
  · intro hlength
    rw [h] at hlength hjoin
    obtain rfl : rest = [] := List.eq_nil_of_length_eq_zero (by simpa using hlength)
    rw [← hjoin]
    apply String.toList_inj.mp
    simp [join]

theorem introspectFirst_eq_some {callbacks : ResourceCallbacks}
    {accessToken scheme : String} {n : ℕ} {servers : List AuthorizationServerMetadata}
    {answer : Value} {server : AuthorizationServerMetadata}
    (h : introspectFirst callbacks accessToken scheme n servers = some (answer, server)) :
    server ∈ servers ∧ ∃ m, introspectToken callbacks m (introspection scheme accessToken server) =
      .ok answer ∧
      answer.get "active" = .bool true := by
  induction servers generalizing n with
  | nil => cases h
  | cons first servers ih =>
    rw [introspectFirst] at h
    split at h
    · next result hresult =>
      split_ifs at h with hactive
      · cases h
        obtain ⟨b, hb⟩ := active_of_introspectToken hresult
        rw [hb] at hactive
        obtain rfl : b = true := hactive
        exact ⟨List.mem_cons_self, n, hresult, hb⟩
      · obtain ⟨hmem, hfound⟩ := ih h
        exact ⟨List.mem_cons_of_mem _ hmem, hfound⟩
    · obtain ⟨hmem, hfound⟩ := ih h
      exact ⟨List.mem_cons_of_mem _ hmem, hfound⟩

theorem decodeAccessToken_ne_ok {accessToken : String} (h : isOpaqueAccessToken accessToken = true)
    (jwt : DecodedJwt) :
    decodeAccessToken accessToken ≠ .ok jwt := by
  intro hdecodes
  rw [isOpaqueAccessToken, hdecodes] at h
  cases h

theorem requiresDpop_iff {scheme : String} {payload : Value} :
    requiresDpop scheme payload = true ↔
      scheme = "DPoP" ∨ payload.get "token_type" = str "DPoP" ∨ (jktOf payload).isSome = true := by
  rw [requiresDpop, Bool.or_eq_true, Bool.or_eq_true, decide_eq_true_eq, decide_eq_true_eq,
    textOf_eq_some, or_assoc]

theorem jktOf_eq_some {payload : Value} {jkt : String} (h : jktOf payload = some jkt) :
    (payload.get "cnf").get "jkt" = str jkt := textOf_eq_some.mp (nonEmpty_eq_some.mp h).1

theorem isSome_jktOf {payload : Value} (h : HasConfirmation payload)
    (hjkt : (payload.get "cnf").get "jkt" ≠ undefined) :
    (jktOf payload).isSome = true := by
  rcases h with habsent | ⟨jkt, heq, hne⟩
  · exact absurd habsent hjkt
  · have hsome : jktOf payload = some jkt := by
      rw [jktOf, heq]
      exact nonEmpty_eq_some.mpr ⟨rfl, hne⟩
    rw [hsome]
    rfl

/-- A token that is used with DPoP is one that needs a proof, unless only its type says so, in
another casing. -/
theorem requiresDpop_of_usesDpop {scheme : String} {payload : Value}
    (hcnf : HasConfirmation payload)
    (htype : ∀ s, payload.get "token_type" = str s → toLowerCase s = "dpop" →
      s = "DPoP" ∨ scheme = "DPoP" ∨ (payload.get "cnf").get "jkt" ≠ undefined)
    (h : UsesDpop scheme payload) : requiresDpop scheme payload = true := by
  refine requiresDpop_iff.mpr ?_
  rcases h with hscheme | ⟨s, hs, hlower⟩ | hjkt
  · exact .inl hscheme
  · rcases htype s hs hlower with rfl | hscheme | hjkt
    · exact .inr (.inl hs)
    · exact .inl hscheme
    · exact .inr (.inr (isSome_jktOf hcnf hjkt))
  · exact .inr (.inr (isSome_jktOf hcnf hjkt))

section

variable {urls : Urls} {callbacks : ResourceCallbacks} {options : VerifyResourceRequestOptions}

theorem extractDpopJwt_eq_some {request : RequestLike} {dpopJwt : String}
    (h : dpopJwtOf request = .ok dpopJwt) :
    request.header "DPoP" = some dpopJwt := by
  unfold dpopJwtOf extractDpopJwtFromHeaders at h
  cases hheader : nonEmpty (request.header "DPoP") with
  | none =>
    rw [hheader] at h
    cases h
  | some text =>
    rw [hheader] at h
    dsimp only at h
    split_ifs at h
    cases h
    exact (nonEmpty_eq_some.mp hheader).1

/-- A proof that passes the checks proves possession of the key that the token is bound to. -/
theorem verifyProof_eq_ok {accessToken : String} (hne : accessToken ≠ "") {payload jwk : Value}
    {server : AuthorizationServerMetadata}
    (h : verifyProof urls callbacks options accessToken payload server = .ok jwk) :
    ∃ jkt, (payload.get "cnf").get "jkt" = str jkt ∧
      ProvesPossession urls callbacks.toCallbacks options.request accessToken jkt jwk := by
  obtain ⟨dpopJwt, hdpopJwt, h⟩ := bind_eq_ok.mp h
  obtain ⟨jkt, hjkt, h⟩ := bind_eq_ok.mp h
  obtain ⟨proof, hproof, h⟩ := bind_eq_ok.mp h
  cases h
  obtain ⟨jwt, hverified⟩ := verifyDpopJwt_eq_ok (mapError_eq_ok.mp hproof)
  have hsome : jktOf payload = some jkt := by
    unfold requiredJkt at hjkt
    split at hjkt
    · next heq =>
      cases hjkt
      exact heq
    · cases hjkt
  have hjktNe : jkt ≠ "" := (nonEmpty_eq_some.mp hsome).2
  refine ⟨jkt, jktOf_eq_some hsome, _, jwt, proof, extractDpopJwt_eq_some hdpopJwt, rfl,
    hverified, ?_, ?_, ?_⟩
  · exact hverified.ath accessToken (nonEmpty_eq_some.mpr ⟨rfl, hne⟩)
  · rw [hverified.expected jkt (nonEmpty_eq_some.mpr ⟨rfl, hjktNe⟩)]
    exact hverified.thumbprint
  · rw [hverified.header]

/-- A token that passes the checks is issued by an authorization server. One that is a JWT is for
this resource server and within its validity window. -/
theorem verifyToken_eq_ok {scheme accessToken : String} {payload : Value}
    {server : AuthorizationServerMetadata}
    (h : verifyToken callbacks options scheme accessToken = .ok (payload, server)) :
    Issued callbacks options scheme accessToken payload server ∧ HasConfirmation payload ∧
      (isOpaqueAccessToken accessToken = true →
        introspectFirst callbacks accessToken scheme 0 options.authorizationServers =
          some (payload, server)) ∧
      (isOpaqueAccessToken accessToken = false →
        (∃ jwt, decodeAccessToken accessToken = .ok jwt ∧ payload = jwt.payload) ∧
          Respects payload options.resourceServer (options.jwtProfile accessToken).claims) := by
  unfold verifyToken at h
  split_ifs at h with hintrospected
  · split at h
    · next found hfound =>
      cases h
      obtain ⟨hknown, n, hanswered, hactive⟩ := introspectFirst_eq_some hfound
      refine ⟨.introspected (decodeAccessToken_ne_ok hintrospected) hknown hanswered hactive,
        hasConfirmation_of_introspectToken hanswered, fun _ => hfound, fun hnot => ?_⟩
      rw [hintrospected] at hnot
      cases hnot
    · cases h
  · obtain ⟨⟨jwt, found⟩, hjwt, h⟩ := bind_eq_ok.mp h
    cases h
    have hverified := verifyJwtProfileAccessToken_eq_ok (mapError_eq_ok.mp hjwt)
    exact ⟨.jwt hverified, hasConfirmation_of_decode hverified.decodes,
      fun htrue => absurd htrue hintrospected,
        fun _ => ⟨⟨jwt, hverified.decodes, rfl⟩, hverified.respects⟩⟩

/-- What a request that passes the checks presents. -/
structure Verified (urls : Urls) (callbacks : ResourceCallbacks)
    (options : VerifyResourceRequestOptions) (result : VerifyResourceRequestResult)
    (header : String) (server : AuthorizationServerMetadata) : Prop where
  presents : Presents callbacks options header result.scheme result.accessToken result.tokenPayload
  nonEmpty : result.accessToken ≠ ""
  issued : Issued callbacks options result.scheme result.accessToken result.tokenPayload server
  issuer : result.authorizationServer = server.issuer
  confirmation : HasConfirmation result.tokenPayload
  respects : isOpaqueAccessToken result.accessToken = false →
    Respects result.tokenPayload options.resourceServer
      (options.jwtProfile result.accessToken).claims
  proof : dpopJwkOf urls callbacks options result.scheme result.accessToken result.tokenPayload
    server = .ok result.dpop

theorem verifyResourceRequest_eq_ok {result : VerifyResourceRequestResult}
    (h : verifyResourceRequest urls callbacks options = .ok result) :
    ∃ header server, Verified urls callbacks options result header server := by
  obtain ⟨_, _, h⟩ := bind_eq_ok.mp h
  obtain ⟨header, hheader, h⟩ := bind_eq_ok.mp h
  obtain ⟨⟨providedScheme, accessToken⟩, hcredentials, h⟩ := bind_eq_ok.mp h
  obtain ⟨scheme, hscheme, h⟩ := bind_eq_ok.mp h
  obtain ⟨⟨payload, server⟩, htoken, h⟩ := bind_eq_ok.mp h
  obtain ⟨dpop, hdpop, h⟩ := bind_eq_ok.mp h
  cases h
  have hpresented : options.request.header "Authorization" = some header := by
    unfold authorizationHeaderOf at hheader
    split at hheader
    · next heq =>
      cases hheader
      exact (nonEmpty_eq_some.mp heq).1
    · cases hheader
  obtain ⟨hissued, hcnf, hanswered, hdecoded⟩ := verifyToken_eq_ok htoken
  obtain ⟨_, _, hne⟩ := credentialsOf_eq_ok hcredentials
  exact ⟨header, server, ⟨hpresented, ⟨providedScheme, hcredentials, hscheme⟩,
    fun hnot => (hdecoded hnot).1, fun hintrospected => ⟨server, hanswered hintrospected⟩⟩, hne,
      hissued, rfl, hcnf, fun hnot => (hdecoded hnot).2, hdpop⟩

/-- A request presents one token under one scheme, with one payload. -/
theorem Presents.unique {header header' scheme scheme' accessToken accessToken' : String}
    {payload payload' : Value} (h : Presents callbacks options header scheme accessToken payload)
    (h' : Presents callbacks options header' scheme' accessToken' payload') :
    header = header' ∧ scheme = scheme' ∧ accessToken = accessToken' ∧ payload = payload' := by
  obtain rfl : header = header' := Option.some.inj (h.presented.symm.trans h'.presented)
  obtain ⟨provided, hcredentials, hscheme⟩ := h.token
  obtain ⟨provided', hcredentials', hscheme'⟩ := h'.token
  have hpair := Except.ok.inj (hcredentials.symm.trans hcredentials')
  obtain ⟨rfl, rfl⟩ := Prod.mk.inj hpair
  obtain rfl : scheme = scheme' := Except.ok.inj (hscheme.symm.trans hscheme')
  refine ⟨rfl, rfl, rfl, ?_⟩
  cases hintrospected : isOpaqueAccessToken accessToken with
  | true =>
    obtain ⟨server, hfound⟩ := h.answered hintrospected
    obtain ⟨server', hfound'⟩ := h'.answered hintrospected
    exact (Prod.mk.inj (Option.some.inj (hfound.symm.trans hfound'))).1
  | false =>
    obtain ⟨jwt, hdecoded, rfl⟩ := h.decoded hintrospected
    obtain ⟨jwt', hdecoded', rfl⟩ := h'.decoded hintrospected
    rw [Except.ok.inj (hdecoded.symm.trans hdecoded')]

/-- A request that passes the checks has a valid, properly bound token if and only if what it
presents is guarded. -/
theorem accepted_iff_guarded {result : VerifyResourceRequestResult}
    (h : verifyResourceRequest urls callbacks options = .ok result) :
    Accepted urls callbacks options result ↔ ∀ header scheme accessToken payload,
      Presents callbacks options header scheme accessToken payload →
        Guarded callbacks options header scheme accessToken payload := by
  obtain ⟨header, server, hverified⟩ := verifyResourceRequest_eq_ok h
  obtain ⟨providedScheme, hcredentials, hscheme⟩ := hverified.presents.token
  obtain ⟨rest, hsplit, hne⟩ := credentialsOf_eq_ok hcredentials
  constructor
  · intro haccepted header' scheme accessToken payload hpresents
    obtain ⟨rfl, rfl, rfl, rfl⟩ := hverified.presents.unique hpresents
    refine ⟨?_, fun _ => haccepted.respects, fun s hs hlower => ?_⟩
    · obtain ⟨provided, hheader, hprovided, _⟩ := haccepted.credential
      have hheader := Option.some.inj (hverified.presents.presented.symm.trans hheader)
      have hfirst : split header ' ' = provided :: split result.accessToken ' ' := by
        rw [hheader, split, split, String.toList_append, String.toList_append]
        change (splitChars ' ' ((provided.toList ++ [' ']) ++ result.accessToken.toList)).map
          String.ofList = _
        rw [List.append_assoc, List.singleton_append, splitChars_append hprovided, List.map_cons,
          String.ofList_toList]
      obtain ⟨rfl, _⟩ := List.cons.inj (hsplit.symm.trans hfirst)
      exact (credential_iff hsplit).mp hheader
    · obtain ⟨jkt, _, hjkt, _⟩ := haccepted.bound (.inr (.inl ⟨s, hs, hlower⟩))
      refine .inr (.inr ?_)
      rw [hjkt]
      intro heq
      cases heq
  · intro hguarded
    have hguard := hguarded _ _ _ _ hverified.presents
    obtain ⟨hallowed, hlower⟩ := schemeOf_eq_ok hscheme
    refine ⟨⟨providedScheme, ?_, ?_, hallowed, hlower⟩,
      ⟨server, hverified.issued, hverified.issuer⟩, ?_, fun huses => ?_⟩
    · rw [← (credential_iff hsplit).mpr hguard.oneSpace]
      exact hverified.presents.presented
    · refine not_mem_of_mem_split (s := header) ?_
      rw [hsplit]
      exact List.mem_cons_self
    · cases hintrospected : isOpaqueAccessToken result.accessToken with
      | true => exact hguard.answer hintrospected
      | false => exact hverified.respects hintrospected
    · have hproof := hverified.proof
      rw [dpopJwkOf, if_pos
        (requiresDpop_of_usesDpop hverified.confirmation hguard.tokenType huses)] at hproof
      obtain ⟨jwk, hjwk, hdpop⟩ := map_eq_ok.mp hproof
      obtain ⟨jkt, hjkt, hproves⟩ := verifyProof_eq_ok hverified.nonEmpty hjwk
      exact ⟨jkt, jwk, hjkt, hproves, hdpop.symm⟩

end

/-! ## An introspected token -/

/-- A resource server with one authorization server, which says that every token is active, for an
audience. -/
def askingFor (audience : String) : ResourceCallbacks where
  verifyJws := fun _ _ => .error "no key"
  hash := fun _ => []
  fetch := fun _ _ => .ok {
    ok := true
    status := 200
    contentType := some CommonMediaTypes.Json
    text := .ok ("\x7b\"active\":true,\"aud\":\"" ++ audience ++ "\"\x7d") }
  clientAuthentication := fun request => .ok (request.headers, request.body)

def plainUrls : Urls where
  zUrl := some
  htu := some
  allowInsecureUrls := false

def bearerRequest : VerifyResourceRequestOptions where
  request := {
    header := fun name => if name = "Authorization" then some "Bearer opaque" else none
    method := "GET"
    url := "https://rs.example/data" }
  resourceServer := "https://rs.example"
  authorizationServers := [{
    issuer := "https://as.example"
    introspectionEndpoint := some "https://as.example/introspect" }]
  now := none

/-- The answer has an audience, and no other claim that is looked at. -/
def hasOnlyAudience (audience : String) (payload : Value) : Bool :=
  textOf (payload.get "aud") = some audience && !isDefined (payload.get "exp") &&
    !isDefined (payload.get "nbf") && !isDefined (payload.get "token_type")

theorem hasOnlyAudience_iff {audience : String} {payload : Value} :
    hasOnlyAudience audience payload = true ↔
      ((payload.get "aud" = str audience ∧ payload.get "exp" = undefined) ∧
        payload.get "nbf" = undefined) ∧
        payload.get "token_type" = undefined := by
  have hundefined : ∀ value : Value, (!isDefined value) = true ↔ value = undefined := by
    intro value
    unfold isDefined definedOf
    split <;> simp_all
  rw [hasOnlyAudience, Bool.and_eq_true, Bool.and_eq_true, Bool.and_eq_true, hundefined,
    hundefined, hundefined, decide_eq_true_eq, textOf_eq_some]

/-- A token for this resource server is accepted, and is what it should be. -/
theorem ownToken_accepted :
    ∃ result, verifyResourceRequest plainUrls (askingFor "https://rs.example") bearerRequest =
      .ok result ∧ Accepted plainUrls (askingFor "https://rs.example") bearerRequest result := by
  have hrun : ((verifyResourceRequest plainUrls
      (askingFor "https://rs.example") bearerRequest).toOption.any fun result =>
      hasOnlyAudience "https://rs.example" result.tokenPayload) = true := by decide +kernel
  obtain ⟨result, hok, hpayload⟩ := exists_of_any hrun
  refine ⟨result, hok,
    (accepted_iff_guarded hok).mpr fun header scheme accessToken payload hpresents => ?_⟩
  obtain ⟨_, _, hverified⟩ := verifyResourceRequest_eq_ok hok
  obtain ⟨rfl, rfl, rfl, rfl⟩ := hverified.presents.unique hpresents
  obtain ⟨⟨⟨haud, hexp⟩, hnbf⟩, htype⟩ := hasOnlyAudience_iff.mp hpayload
  obtain rfl := Option.some.inj hpresents.presented
  refine ⟨by decide +kernel, fun _ => ⟨.inr ?_, fun _ => .inl hexp, fun _ => .inl hnbf⟩,
    fun s hs _ => ?_⟩
  · rw [haud]
    exact List.mem_singleton_self _
  · rw [htype] at hs
    cases hs

/-- A token for another resource server is accepted. -/
theorem foreignToken_accepted :
    ∃ urls callbacks options result, verifyResourceRequest urls callbacks options = .ok result ∧
    ¬ Accepted urls callbacks options result := by
  have hrun : ((verifyResourceRequest plainUrls
      (askingFor "https://other.example") bearerRequest).toOption.any
      fun result => hasOnlyAudience "https://other.example" result.tokenPayload) = true := by
        decide +kernel
  obtain ⟨result, hok, hpayload⟩ := exists_of_any hrun
  refine ⟨_, _, _, result, hok, fun haccepted => ?_⟩
  obtain ⟨⟨⟨haud, _⟩, _⟩, _⟩ := hasOnlyAudience_iff.mp hpayload
  have haudience := haccepted.respects.audience
  rw [haud] at haudience
  rcases haudience with habsent | hmem
  · cases habsent
  · have heq : "https://rs.example" = "https://other.example" :=
      Leaf.str.inj (Value.leaf.inj (List.mem_singleton.mp hmem))
    exact absurd heq (by decide)

end IdentityCommon.Oauth2
