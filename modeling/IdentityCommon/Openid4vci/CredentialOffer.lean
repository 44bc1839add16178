import IdentityCommon.Oauth2.Fetch
import IdentityCommon.Openid4vci.CredentialOfferObject
import IdentityCommon.Openid4vcUtils.Url

/-!
# Credential offers

A credential offer is a URL with the offer, or with a URL that the offer is fetched from, among its
parameters.

## Main definitions

- `createCredentialOffer`, `resolveCredentialOffer` — creating the URL, and reading the offer of a
  URL
- `ResolvesTo` — the offer of a URL is read as an offer with the same JSON

## Main results

- `createCredentialOffer_eq_ok` — the offer and the parameters of the URL that are created
-/

namespace IdentityCommon.Openid4vci

open Ecma AssocList Value Common Jose Oauth2 Openid4vcUtils IdentityCommon.Except

inductive Openid4vciVersion
  | v1 | draft15 | draft14 | draft11
  deriving DecidableEq

/-- The metadata of an issuer, as far as offers are checked against it. -/
structure IssuerMetadataResult where
  credentialIssuer : String
  authorizationServers : Option (List String) := none
  credentialConfigurationsSupported : Members
  originalDraftVersion : Option Openid4vciVersion := none

/-- The types allow an object, or nothing, for the grants of the two identifiers. -/
structure CreateCredentialOfferOptions where
  issuerMetadata : IssuerMetadataResult
  credentialConfigurationIds : List String
  grants : Members
  additionalPayload : Members := []
  credentialOfferUri : Option String := none
  credentialOfferScheme : Option String := none
  generateRandom : ℕ → List UInt8

/-! ## Creating an offer -/

def determineAuthorizationServerForCredentialOffer (issuerMetadata : IssuerMetadataResult)
    (grantAuthorizationServer : Value) : Except Oauth2Error Unit :=
  if grantAuthorizationServer.truthy then
    match issuerMetadata.authorizationServers with
    | none => .error (.oauth2
        ("Credential offer grant contains 'authorization_server' with value '" ++
        grantAuthorizationServer.toText.getD "" ++
        "' but credential issuer metadata does not have an " ++
        "'authorization_servers' property to match the value against."))
    | some servers => match grantAuthorizationServer with
      | str server => check (server ∈ servers)
          (.oauth2 ("Credential offer grant contains 'authorization_server' with value '" ++
          server ++
          "' but credential issuer metadata does not include this authorization server. " ++
          "Available 'authorization_server' values are " ++ ", ".intercalate servers ++ "."))
      | _ => .error (.oauth2
          ("Credential offer grant contains 'authorization_server' with value '" ++
          grantAuthorizationServer.toText.getD "" ++
          "' but credential issuer metadata does not include this " ++
          "authorization server. Available 'authorization_server' values are " ++
          ", ".intercalate servers ++ "."))
  else match issuerMetadata.authorizationServers with
    | none => .ok ()
    | some [] =>
        .error (.oauth2
          "Credential issuer metadata has 'authorization_servers' value with length of 0")
    | some [_] => .ok ()
    | some _ => .error (.oauth2
        ("Credential issuer metadata has 'authorization_server' with multiple entries, but the " ++
        "credential offer grant did not specify which authorization server to use."))

/-- The grant under an identifier, if there is one. -/
def grantOf (identifier : String) (grants : Members) : Option Members :=
  match (obj grants).get identifier with
  | obj grant => some grant
  | _ => none

/-- The pre-authorized code of a grant, or else a random one. -/
def preAuthorizedCode (options : CreateCredentialOfferOptions) (grant : Members) : Value :=
  match (obj grant).get "pre-authorized_code" with
  | undefined | null => str (base64url (options.generateRandom 32))
  | code => code

/-- The grants besides the pre-authorized code, with the one of the authorization code last. -/
def otherGrants (options : CreateCredentialOfferOptions) : Except Oauth2Error Members :=
  let restGrants := options.grants.filter fun m =>
    m.1 ≠ preAuthorizedCodeGrantIdentifier ∧ m.1 ≠ authorizationCodeGrantIdentifier
  match grantOf authorizationCodeGrantIdentifier options.grants with
  | none => .ok restGrants
  | some grant => do
    determineAuthorizationServerForCredentialOffer options.issuerMetadata
      ((obj grant).get "authorization_server")
    .ok (insert authorizationCodeGrantIdentifier (obj grant) restGrants)

/-- The grants of the offer, with the pin of draft 11 where it has a transaction code. -/
def offerGrants (options : CreateCredentialOfferOptions) : Except Oauth2Error Members := do
  let grants ← otherGrants options
  match grantOf preAuthorizedCodeGrantIdentifier options.grants with
  | none => .ok grants
  | some grant => do
    determineAuthorizationServerForCredentialOffer options.issuerMetadata
      ((obj grant).get "authorization_server")
    let grant := insert "pre-authorized_code" (preAuthorizedCode options grant) grant
    let grant := if ((obj grant).get "tx_code").truthy &&
        options.issuerMetadata.originalDraftVersion = some .draft11 then
      insert "user_pin_required" (.leaf (.bool true)) grant else grant
    .ok (insert preAuthorizedCodeGrantIdentifier (obj grant) grants)

/-- The members with those of an object spread after them. -/
def spread (members added : Members) : Members :=
  added.foldl (fun members m => insert m.1 m.2 members) members

/-- What the schema of an offer is applied to. -/
def offerInput (options : CreateCredentialOfferOptions) (grants : Members) : Members :=
  spread [("credential_issuer", str options.issuerMetadata.credentialIssuer),
    ("credential_configuration_ids", arr (options.credentialConfigurationIds.map str)),
      ("grants", obj grants)]
    options.additionalPayload

def isUndefined : Value → Bool
  | undefined => true
  | _ => false

/-- The offer, which has the configurations under their name in draft 11 as well where that is the
version. -/
def createCredentialOfferObject (urls : Urls) (options : CreateCredentialOfferOptions) :
    Except Oauth2Error Members := do
  let grants ← offerGrants options
  let idsNotInMetadata := options.credentialConfigurationIds.filter fun id =>
    isUndefined ((obj options.issuerMetadata.credentialConfigurationsSupported).get id)
  check (idsNotInMetadata = [])
    (.oauth2 ("Credential configuration ids " ++ ",".intercalate idsNotInMetadata ++
    " not found in the credential issuer metadata 'credential_configurations_supported'. " ++
    "Available ids are " ++
    ", ".intercalate (keys options.issuerMetadata.credentialConfigurationsSupported) ++ "."))
  match zCredentialOfferObject urls (obj (offerInput options grants)) with
  | some (obj offer) =>
    .ok (if options.issuerMetadata.originalDraftVersion = some .draft11 then
      insert "credentials" ((obj offer).get "credential_configuration_ids") offer else offer)
  | _ => .error (.validation "Error validating structure")

/-- `objectToQueryParams` of the parameters of an offer. -/
def offerParams (options : CreateCredentialOfferOptions) (offer : Members) :
    List (String × String) :=
  objectToQueryParams [
    ("credential_offer_uri", (options.credentialOfferUri.map str).getD undefined),
    ("credential_offer", if ((options.credentialOfferUri.map str).getD undefined).truthy then
      undefined else obj offer)]

def createCredentialOffer (web : WebUrl) (urls : Urls) (options : CreateCredentialOfferOptions) :
    Except Oauth2Error (String × Members) := do
  let offer ← createCredentialOfferObject urls options
  match web.parse (options.credentialOfferScheme.getD "openid-credential-offer://") with
  | none => .error (.other "Invalid URL")
  | some url =>
    let search := String.ofList ('?' :: UrlSearchParams.serialize
      (UrlSearchParams.entries (web.search url) ++ offerParams options offer))
    .ok (web.toText (web.setSearch url search), offer)

/-! ## Resolving an offer -/

/-- The response with an offer. -/
def requestCredentialOffer (urls : Urls) (fetch : Fetch) (credentialOfferUri : String) :
    Except Oauth2Error (FetchResponse × Option (Option Value)) :=
  match fetchWithZod fetch 0 (zCredentialOfferObject urls) [CommonMediaTypes.Json]
    { url := credentialOfferUri } with
  | .error (.fetch message) =>
      .error (.fetch ("The credential offer from '" ++ credentialOfferUri ++
      "' could not be read. " ++ message))
  | result => result

/-- The offer that is fetched from a URL; none where it does not validate. -/
def fetchCredentialOffer (urls : Urls) (fetch : Fetch) (uri : String) :
    Except Oauth2Error (Option Value) :=
  match zHttpsUrl urls (str uri) with
  | some (str credentialOfferUri) => do
    let (response, result) ← requestCredentialOffer urls fetch credentialOfferUri
    match response.ok, result with
    | true, some result => .ok result
    | _, _ => .error (.fetch ("Fetching credential offer from '" ++ uri ++
        "' resulted in an unsuccessful response with status '" ++ Nat.repr response.status ++ "'"))
  | _ => .error (.validation "Invalid credential_offer_uri")

/-- The offer of some parameters; none where it does not validate. -/
def readCredentialOffer (urls : Urls) (fetch : Fetch) (parsedQueryParams : List (String × String)) :
    Except Oauth2Error (Option Value) :=
  match nonEmpty (parsedQueryParams.lookup "credential_offer_uri") with
  | some uri => fetchCredentialOffer urls fetch uri
  | none => match nonEmpty (parsedQueryParams.lookup "credential_offer") with
    | some text => match (decodeURIComponent text.toList).bind Json.parse with
      | some credentialOfferJson => .ok (zCredentialOfferObject urls credentialOfferJson)
      | none => .error
          (.oauth2 "Error parsing JSON from the 'credential_offer' param of the credential offer")
    | none => .error (.oauth2
        ("Credential offer did not contain either 'credential_offer' or 'credential_offer_uri' " ++
         "param."))

def resolveCredentialOffer (web : WebUrl) (urls : Urls) (fetch : Fetch) (credentialOffer : String) :
    Except Oauth2Error Value :=
  match getQueryParams web credentialOffer with
  | none => .error (.other "Invalid URL")
  | some parsedQueryParams => do
    match ← readCredentialOffer urls fetch parsedQueryParams with
    | some offer => .ok offer
    | none => .error (.validation "Error parsing the credential offer")

/-! ## The round trip -/

/-- The offer of the URL is read as one that is equal as JSON. -/
def ResolvesTo (web : WebUrl) (urls : Urls) (fetch : Fetch) (credentialOffer : String)
    (offer : Members) : Prop :=
  ∃ resolved, resolveCredentialOffer web urls fetch credentialOffer = .ok resolved ∧
    ∃ i j, Json.normal resolved = some i ∧ Json.normal (obj offer) = some j ∧ i.Same j

/-- A request to the URL is answered with the JSON of the offer. -/
def Serves (fetch : Fetch) (url : String) (offer : Members) : Prop :=
  ∀ n headers, ∃ response text, fetch n { url := url, headers := headers } = .ok response ∧
  response.ok = true ∧
    response.contentType = some CommonMediaTypes.Json ∧ Json.stringify (obj offer) = some text ∧
    response.text = .ok (String.ofList text)

/-- What an offer is created and resolved with: a platform with URLs, a URL that has no parameters
of an offer yet, and a server for the URL of the offer. -/
structure Setting (web : WebUrl) (urls : Urls) (fetch : Fetch)
    (options : CreateCredentialOfferOptions) (offer : Members) : Prop where
  lawful : web.IsLawful
  settle : UrlsSettle urls
  grants : (obj options.grants).Distinct
  additionalPayload : (obj options.additionalPayload).Distinct
  scheme : ∀ url, web.parse (options.credentialOfferScheme.getD "openid-credential-offer://") =
    some url →
    ∀ param ∈ UrlSearchParams.entries (web.search url),
      param.1 ≠ "credential_offer_uri" ∧ param.1 ≠ "credential_offer"
  serves : ∀ uri url, options.credentialOfferUri = some uri →
    zHttpsUrl urls (str uri) = some (str url) →
    Serves fetch url offer

/-! ## What is created -/

theorem distinct_spread {members added : Members} (h : (obj members).Distinct)
    (hadded : ∀ m ∈ added, m.2.Distinct) :
    (obj (spread members added)).Distinct := by
  induction added generalizing members with
  | nil => exact h
  | cons m added ih =>
    obtain ⟨hfirst, hadded⟩ := List.forall_mem_cons.mp hadded
    exact ih (distinct_insert h hfirst) hadded

theorem distinct_filter {members : Members} (kept : String × Value → Bool)
    (h : (obj members).Distinct) :
    (obj (members.filter kept)).Distinct := by
  rw [obj_distinct_iff] at h ⊢
  exact ⟨(List.filter_sublist.map Prod.fst).nodup h.1,
    fun m hm => h.2 m (List.mem_of_mem_filter hm)⟩

theorem distinct_get {members : Members} (h : (obj members).Distinct) (key : String) :
    ((obj members).get key).Distinct := by
  rw [Value.get]
  cases hl : members.lookup key with
  | some x => exact (obj_distinct_iff.mp h).2 _ (mem_of_lookup hl)
  | none =>
    rw [Option.getD_none, inherited]
    split_ifs <;> exact .leaf _

theorem distinct_grantOf {identifier : String} {grants grant : Members} (h : (obj grants).Distinct)
    (hgrant : grantOf identifier grants = some grant) : (obj grant).Distinct := by
  have hdistinct := distinct_get h identifier
  unfold grantOf at hgrant
  split at hgrant
  · next hget =>
    cases hgrant
    rwa [hget] at hdistinct
  · cases hgrant

theorem distinct_preAuthorizedCode (options : CreateCredentialOfferOptions) {grant : Members}
    (h : (obj grant).Distinct) : (preAuthorizedCode options grant).Distinct := by
  have hdistinct := distinct_get h "pre-authorized_code"
  unfold preAuthorizedCode
  split
  · exact .leaf _
  · exact .leaf _
  · exact hdistinct

theorem distinct_otherGrants {options : CreateCredentialOfferOptions}
    (h : (obj options.grants).Distinct) {grants : Members}
    (hgrants : otherGrants options = .ok grants) : (obj grants).Distinct := by
  unfold otherGrants at hgrants
  dsimp only at hgrants
  split at hgrants
  · cases hgrants
    exact distinct_filter _ h
  · next grant hgrant =>
    obtain ⟨_, -, hgrants⟩ := bind_eq_ok.mp hgrants
    cases hgrants
    exact distinct_insert (distinct_filter _ h) (distinct_grantOf h hgrant)

theorem distinct_offerGrants {options : CreateCredentialOfferOptions}
    (h : (obj options.grants).Distinct) {grants : Members}
    (hgrants : offerGrants options = .ok grants) : (obj grants).Distinct := by
  obtain ⟨grants', hgrants', hrest⟩ := bind_eq_ok.mp hgrants
  have hdistinct := distinct_otherGrants h hgrants'
  split at hrest
  · cases hrest
    exact hdistinct
  · next grant hgrant =>
    obtain ⟨_, -, hrest⟩ := bind_eq_ok.mp hrest
    cases hrest
    have hgrant' := distinct_grantOf h hgrant
    have hcode :
        (obj (insert "pre-authorized_code" (preAuthorizedCode options grant) grant)).Distinct :=
      distinct_insert hgrant' (distinct_preAuthorizedCode options hgrant')
    refine distinct_insert hdistinct ?_
    split_ifs
    · exact distinct_insert hcode (.leaf _)
    · exact hcode

theorem distinct_offerInput {options : CreateCredentialOfferOptions} {grants : Members}
    (h : (obj grants).Distinct) (hadditional : (obj options.additionalPayload).Distinct) :
    (obj (offerInput options grants)).Distinct := by
  refine distinct_spread (.obj ?_ fun m hm => ?_) (obj_distinct_iff.mp hadditional).2
  · have hn : ["credential_issuer", "credential_configuration_ids", "grants"].Nodup := by decide
    exact hn
  · simp only [List.mem_cons, List.not_mem_nil, or_false] at hm
    rcases hm with rfl | rfl | rfl
    · exact .leaf _
    · refine .arr fun x hx => ?_
      obtain ⟨id, -, rfl⟩ := List.mem_map.mp hx
      exact .leaf _
    · exact h

/-! ## What the schema of an offer returns -/

theorem distinct_grantsToDraft14 {grants : Members} (h : (obj grants).Distinct) :
    (obj (grantsToDraft14 grants)).Distinct := by
  have hget := distinct_get h preAuthorizedCodeGrantIdentifier
  unfold grantsToDraft14
  split
  · next preAuthorized heq =>
    rw [heq] at hget
    have hrest := distinct_filter (fun m => m.1 ≠ "user_pin_required") hget
    refine distinct_insert h ?_
    split_ifs
    · refine distinct_insert hrest (.obj (List.nodup_singleton _) fun m hm => ?_)
      obtain rfl := List.mem_singleton.mp hm
      exact .leaf _
    · exact hrest
  · exact h

theorem distinct_toDraft14 {parsed : Members} (h : (obj parsed).Distinct) :
    (obj (toDraft14 parsed)).Distinct := by
  have hgrants := distinct_get h "grants"
  have hv14 : (obj (insert "credential_configuration_ids" ((obj parsed).get "credentials")
      (parsed.filter fun m => m.1 ≠ "credentials" ∧ m.1 ≠ "grants"))).Distinct :=
    distinct_insert (distinct_filter _ h) (distinct_get h "credentials")
  unfold toDraft14
  split
  · next grants heq =>
    rw [heq] at hgrants
    exact distinct_insert hv14 (distinct_grantsToDraft14 hgrants)
  · exact hv14

theorem distinct_looseObject_draft11 {urls : Urls} (hurls : UrlsSettle urls) {v w : Value}
    (hv : v.Distinct) (h : looseObject (credentialOfferShapeDraft11 urls) v = some w) :
    w.Distinct := by
  have hn : (keys (credentialOfferShapeDraft11 urls)).Nodup := by
    have hnames : ["credential_issuer", "credentials", "grants"].Nodup := by decide
    exact hnames
  have hnGrants : [authorizationCodeGrantIdentifier, preAuthorizedCodeGrantIdentifier].Nodup := by
    decide
  have hnCode : ["pre-authorized_code", "user_pin_required"].Nodup := by decide
  have hcode : KeepsDistinct (looseObject [("pre-authorized_code", zNonEmptyString),
      ("user_pin_required", optional zBoolean)]) := by
    refine KeepsDistinct.looseObject hnCode fun s hs => ?_
    rcases List.mem_pair.mp hs with rfl | rfl
    · exact exact_zNonEmptyString.keeps.keepsDistinct
    · exact keepsDistinct_zBoolean.optional
  have hgrants : KeepsDistinct (zGrantsDraft11 urls) := by
    intro v w hv hw
    unfold zGrantsDraft11 object at hw
    split at hw
    · next members =>
      obtain ⟨known, hknown, rfl⟩ := Option.map_eq_some_iff.mp hw
      refine .obj ((keys_parseShape hknown).nodup hnGrants)
        (KeepsDistinct.parseShape (fun s hs => ?_) (obj_distinct_iff.mp hv).2 hknown)
      rcases List.mem_pair.mp hs with rfl | rfl
      · exact KeepsDistinct.optional (stable_zAuthorizationCodeGrant hurls).distinct
      · exact hcode.optional
    · cases hw
  refine KeepsDistinct.looseObject hn (fun s hs => ?_) v w hv h
  simp only [credentialOfferShapeDraft11, List.mem_cons, List.not_mem_nil, or_false] at hs
  rcases hs with rfl | rfl | rfl
  · exact (stable_zHttpsUrl hurls).distinct
  · exact (exact_textWhere _).array.keeps.keepsDistinct
  · exact hgrants.optional

/-- An offer is what the schema of draft 14 returns for an object with distinct names. -/
theorem exists_draft14 {urls : Urls} (hurls : UrlsSettle urls) {v w : Value} (hv : v.Distinct)
    (h : zCredentialOfferObject urls v = some w) :
    ∃ members members', (obj members).Distinct ∧ w = obj members' ∧
      zCredentialOfferObjectDraft14 urls (obj members) = some (obj members') := by
  have hdraft14 : ∀ {v w : Value}, v.Distinct → zCredentialOfferObjectDraft14 urls v = some w →
      ∃ members members', (obj members).Distinct ∧ w = obj members' ∧
        zCredentialOfferObjectDraft14 urls (obj members) = some (obj members') := by
    intro v w hv h
    obtain ⟨members, known, rfl, -, rfl⟩ := looseObject_eq_some h
    exact ⟨members, _, hv, rfl, h⟩
  rcases Option.or_eq_some_iff.mp h with h | ⟨-, h⟩
  · exact hdraft14 hv h
  · rw [unionOf, unionOf, Option.or_none, zCredentialOfferObjectDraft11To14] at h
    split at h
    · next parsed hparsed =>
      exact hdraft14 (distinct_toDraft14 (distinct_looseObject_draft11 hurls hv hparsed)) h
    · cases h

/-- The offer that is created is read back as what its JSON text denotes. -/
theorem zCredentialOfferObject_normal {urls : Urls} {options : CreateCredentialOfferOptions}
    (hurls : UrlsSettle urls) (hgrants : (obj options.grants).Distinct)
    (hadditional : (obj options.additionalPayload).Distinct) {offer : Members}
    (h : createCredentialOfferObject urls options = .ok offer) : (obj offer).Distinct ∧
      ∀ j, Json.normal (obj offer) = some j → zCredentialOfferObject urls j = some j := by
  obtain ⟨grants, hgrants', h⟩ := bind_eq_ok.mp h
  obtain ⟨_, -, h⟩ := bind_eq_ok.mp h
  have hinput := distinct_offerInput (distinct_offerGrants hgrants hgrants') hadditional
  have hstable := stable_zCredentialOfferObjectDraft14 hurls
  split at h
  · next offer' hoffer =>
    obtain ⟨members, members', hmembers, heq, hdraft14⟩ := exists_draft14 hurls hinput hoffer
    cases heq
    have hdistinct := hstable.distinct _ _ hmembers hdraft14
    -- The offer is also returned for an object with the member of draft 11.
    have hreturned : ∃ v, v.Distinct ∧ zCredentialOfferObjectDraft14 urls v = some (obj offer) := by
      split_ifs at h
      · cases h
        have hother : isOther (credentialOfferShape urls) "credentials" = true :=
            isOther_iff.mpr ⟨by
          have hnames : "credentials" ∉ ["credential_issuer",
              "credential_configuration_ids", "grants"] := by decide
          exact hnames, by decide⟩
        exact ⟨obj (insert "credentials" ((obj offer').get "credential_configuration_ids") members),
          distinct_insert hmembers (distinct_get hdistinct _), looseObject_insert hother hdraft14 _⟩
      · cases h
        exact ⟨_, hmembers, hdraft14⟩
    obtain ⟨v, hv, hw⟩ := hreturned
    refine ⟨hstable.distinct _ _ hv hw, fun j hj => ?_⟩
    exact Option.or_eq_some_iff.mpr (.inl (hstable.normal _ _ _ hv hw hj))
  · cases h

/-! ## The parameters of the URL -/

theorem createCredentialOffer_eq_ok {web : WebUrl} {urls : Urls}
    {options : CreateCredentialOfferOptions} {credentialOffer : String} {offer : Members} :
    createCredentialOffer web urls options = .ok (credentialOffer, offer) ↔
      createCredentialOfferObject urls options = .ok offer ∧
        ∃ url, web.parse (options.credentialOfferScheme.getD "openid-credential-offer://") =
          some url ∧
          credentialOffer = web.toText
            (web.setSearch url (String.ofList ('?' :: UrlSearchParams.serialize
            (UrlSearchParams.entries (web.search url) ++ offerParams options offer)))) := by
  rw [createCredentialOffer, bind_eq_ok]
  constructor
  · rintro ⟨offer', hoffer, h⟩
    split at h
    · cases h
    · next url hurl =>
      cases h
      exact ⟨hoffer, url, hurl, rfl⟩
  · rintro ⟨hoffer, url, hurl, rfl⟩
    exact ⟨offer, hoffer, by rw [hurl]⟩

/-- The parameters of an offer are its URL, or else its JSON text. -/
theorem offerParams_eq (options : CreateCredentialOfferOptions) {offer : Members} {text : List Char}
    (htext : Json.stringify (obj offer) = some text) :
    offerParams options offer = match options.credentialOfferUri with
      | none => [("credential_offer", String.ofList text)]
      | some uri => ("credential_offer_uri", uri) ::
          if uri = "" then [("credential_offer", String.ofList text)] else [] := by
  rw [offerParams]
  cases options.credentialOfferUri with
  | none =>
    simp only [objectToQueryParams, Option.map_none, Option.getD_none]
    show [("credential_offer", String.ofList ((Json.stringify (obj offer)).getD []))] = _
    rw [htext, Option.getD_some]
  | some uri =>
    simp only [Option.map_some, Option.getD_some]
    by_cases huri : uri = ""
    · subst huri
      show [("credential_offer_uri", _),
        ("credential_offer", String.ofList ((Json.stringify (obj offer)).getD []))] = _
      rw [htext, Option.getD_some]
      rfl
    · have htruthy : (str uri).truthy = true := by simp [truthy, huri]
      rw [if_pos htruthy, if_neg huri]
      rfl

section

variable {web : WebUrl} {urls : Urls} {fetch : Fetch} {options : CreateCredentialOfferOptions}
  {credentialOffer : String} {offer : Members}

theorem serialize_ne_nil {params : List (String × String)} (h : params ≠ []) :
    UrlSearchParams.serialize params ≠ [] := by
  intro hnil
  have hparse := UrlSearchParams.parse_serialize params
  rw [hnil] at hparse
  exact h hparse.symm

theorem offerParams_ne_nil (options : CreateCredentialOfferOptions) {text : List Char}
    (htext : Json.stringify (obj offer) = some text) : offerParams options offer ≠ [] := by
  rw [offerParams_eq options htext]
  split <;> exact List.cons_ne_nil _ _

/-- The parameters that are read of the URL that is created. -/
theorem exists_getQueryParams (hset : Setting web urls fetch options offer)
    (h : createCredentialOffer web urls options = .ok (credentialOffer, offer)) {text : List Char}
    (htext : Json.stringify (obj offer) = some text) :
    ∃ params, getQueryParams web credentialOffer = some params ∧
      nonEmpty (params.lookup "credential_offer_uri") = nonEmpty options.credentialOfferUri ∧
      (nonEmpty options.credentialOfferUri = none →
        params.lookup "credential_offer" = some (String.ofList text)) := by
  obtain ⟨-, url, hurl, rfl⟩ := createCredentialOffer_eq_ok.mp h
  have hne : UrlSearchParams.entries (web.search url) ++ offerParams options offer ≠ [] :=
    List.append_ne_nil_of_right_ne_nil _ (offerParams_ne_nil options htext)
  obtain ⟨url', hparse, hsearch⟩ := hset.lawful _ url _ hurl (serialize_ne_nil hne)
    (UrlSearchParams.isSerializedChar_serialize _)
  refine ⟨_, by rw [getQueryParams, hparse, Option.map_some, hsearch,
    UrlSearchParams.entries_serialize], ?_⟩
  have hown : ∀ name, name = "credential_offer_uri" ∨ name = "credential_offer" →
      (UrlSearchParams.entries (web.search url)).reverse.lookup name = none := by
    intro name hname
    refine lookup_eq_none_iff.mpr fun hmem => ?_
    obtain ⟨param, hparam, rfl⟩ := List.mem_map.mp hmem
    have hscheme := hset.scheme url hurl param (List.mem_reverse.mp hparam)
    rcases hname with hname | hname
    · exact hscheme.1 hname
    · exact hscheme.2 hname
  have hlookup : ∀ name, name = "credential_offer_uri" ∨ name = "credential_offer" →
      ((UrlSearchParams.entries (web.search url) ++ offerParams options offer).foldl
        assign []).lookup name =
        (offerParams options offer).reverse.lookup name := by
    intro name hname
    have hproto : name ≠ "__proto__" := by
      rcases hname with rfl | rfl <;> decide
    rw [lookup_foldl_assign hproto, List.lookup_nil, Option.or_none, List.reverse_append,
      List.lookup_append, hown name hname, Option.or_none]
  rw [hlookup _ (.inl rfl), hlookup _ (.inr rfl), offerParams_eq options htext]
  cases huri : options.credentialOfferUri with
  | none => exact ⟨rfl, fun _ => rfl⟩
  | some uri =>
    by_cases hempty : uri = ""
    · subst hempty
      exact ⟨rfl, fun _ => rfl⟩
    · simp only [if_neg hempty]
      refine ⟨rfl, fun hnone => ?_⟩
      rw [nonEmpty, Option.filter_some, if_pos (by simpa using hempty)] at hnone
      cases hnone

theorem nonEmpty_json {text : List Char} (htext : Json.stringify (obj offer) = some text) :
    nonEmpty (some (String.ofList text)) = some (String.ofList text) := by
  refine nonEmpty_eq_some.mpr ⟨rfl, fun hempty => ?_⟩
  rw [Json.stringify] at htext
  cases htext
  have hlist := congrArg String.toList hempty
  rw [String.toList_ofList] at hlist
  cases hlist

/-- The offer at the URL is read where that is a URL of the scheme. -/
theorem fetchCredentialOffer_of_serves {uri : String} (huri : zHttpsUrl urls (str uri) ≠ none)
    (hserves : ∀ url, zHttpsUrl urls (str uri) = some (str url) → Serves fetch url offer)
    (hdistinct : (obj offer).Distinct) {j : Value} (hj : Json.normal (obj offer) = some j) :
    fetchCredentialOffer urls fetch uri = .ok (zCredentialOfferObject urls j) := by
  obtain ⟨url, hurl⟩ : ∃ url, zHttpsUrl urls (str uri) = some (str url) := by
    obtain ⟨w, hw⟩ := Option.ne_none_iff_exists'.mp huri
    obtain ⟨url, -, rfl⟩ := Option.map_eq_some_iff.mp hw
    exact ⟨url, hw⟩
  have hparse := Json.parse_stringify_normal hdistinct hj
  obtain ⟨response, text, hresponse, hok, htype, htext, hbody⟩ := hserves url hurl 0
    (withAccept [CommonMediaTypes.Json] [])
  rw [htext, Option.bind_some] at hparse
  have hjson : isMediaType (some CommonMediaTypes.Json) [CommonMediaTypes.Json] = true := by
    decide +kernel
  have hjwt : isMediaType (some CommonMediaTypes.Json) [CommonMediaTypes.Jwt] = false := by
    decide +kernel
  have hread : parseBody (zCredentialOfferObject urls) response =
      .ok (some (zCredentialOfferObject urls j)) := by
    rw [parseBody, hok, htype, hjwt]
    show (parseJsonResponse response).map
      (fun value => some (zCredentialOfferObject urls value)) = _
    rw [parseJsonResponse, hbody]
    show (match Json.parse (String.ofList text).toList with
      | some value => _
      | none => _ : Except _ _).map _ = _
    rw [String.toList_ofList, hparse]
    rfl
  have hfetch : fetchWithZod fetch 0 (zCredentialOfferObject urls) [CommonMediaTypes.Json]
      { url := url } =
      .ok (response, some (zCredentialOfferObject urls j)) := by
    rw [fetchWithZod, hresponse, Except.mapError, ok_bind, checkContentType, htype,
      hjson, Bool.or_true]
    show (do
      let result ← parseBody (zCredentialOfferObject urls) response
      return (response, result)) = _
    rw [hread]
    rfl
  rw [fetchCredentialOffer, hurl]
  simp only [requestCredentialOffer, hfetch, ok_bind, hok]

/-- What is read of the URL that is created. -/
theorem readCredentialOffer_of_create (hset : Setting web urls fetch options offer)
    (h : createCredentialOffer web urls options = .ok (credentialOffer, offer)) {text : List Char}
    (htext : Json.stringify (obj offer) = some text) :
    ∃ params, getQueryParams web credentialOffer = some params ∧
    readCredentialOffer urls fetch params =
      match nonEmpty options.credentialOfferUri with
      | some uri => fetchCredentialOffer urls fetch uri
      | none => match (decodeURIComponent text).bind Json.parse with
        | some credentialOfferJson => .ok (zCredentialOfferObject urls credentialOfferJson)
        | none => .error (.oauth2
            "Error parsing JSON from the 'credential_offer' param of the credential offer") := by
  obtain ⟨params, hparams, huri, hjson⟩ := exists_getQueryParams hset h htext
  refine ⟨params, hparams, ?_⟩
  rw [readCredentialOffer, huri]
  cases hnone : nonEmpty options.credentialOfferUri with
  | some uri => rfl
  | none =>
    simp only [hjson hnone, nonEmpty_json htext, String.toList_ofList]

/-- The offer of the URL that is created, in terms of what is read. -/
theorem resolveCredentialOffer_eq_ok (hset : Setting web urls fetch options offer)
    (h : createCredentialOffer web urls options = .ok (credentialOffer, offer)) {text : List Char}
    (htext : Json.stringify (obj offer) = some text) {resolved : Value} :
    resolveCredentialOffer web urls fetch credentialOffer = .ok resolved ↔
      match nonEmpty options.credentialOfferUri with
      | some uri => fetchCredentialOffer urls fetch uri = .ok (some resolved)
      | none => ∃ json, (decodeURIComponent text).bind Json.parse = some json ∧
          zCredentialOfferObject urls json = some resolved := by
  obtain ⟨params, hparams, hread⟩ := readCredentialOffer_of_create hset h htext
  have hresolve : resolveCredentialOffer web urls fetch credentialOffer = .ok resolved ↔
      readCredentialOffer urls fetch params = .ok (some resolved) := by
    unfold resolveCredentialOffer
    rw [hparams]
    dsimp only
    rw [bind_eq_ok]
    constructor
    · rintro ⟨result, hresult, hok⟩
      cases result with
      | none => cases hok
      | some result =>
        cases hok
        exact hresult
    · exact fun hresult => ⟨_, hresult, rfl⟩
  rw [hresolve, hread]
  cases nonEmpty options.credentialOfferUri with
  | some uri => exact Iff.rfl
  | none =>
    simp only
    cases (decodeURIComponent text).bind Json.parse with
    | none =>
      refine iff_of_false (fun h => ?_) ?_
      · cases h
      · rintro ⟨_, hjson, -⟩
        cases hjson
    | some json =>
      constructor
      · exact fun hjson => ⟨json, rfl, Except.ok.inj hjson⟩
      · rintro ⟨_, heq, hjson⟩
        cases heq
        exact congrArg _ hjson

/-- When the offer of the URL that is created is read as it was: its own URL is one of the scheme
that is required, or there is no percent sign in its JSON text. -/
theorem resolvesTo_of_create (hset : Setting web urls fetch options offer)
    (h : createCredentialOffer web urls options = .ok (credentialOffer, offer))
    (hcondition : match nonEmpty options.credentialOfferUri with
      | some uri => zHttpsUrl urls (str uri) ≠ none
      | none => ∀ text, Json.stringify (obj offer) = some text → '%' ∉ text) :
    ResolvesTo web urls fetch credentialOffer offer := by
  obtain ⟨hobject, -⟩ := createCredentialOffer_eq_ok.mp h
  obtain ⟨hdistinct, hread⟩ :=
    zCredentialOfferObject_normal hset.settle hset.grants hset.additionalPayload hobject
  obtain ⟨j, hj⟩ : ∃ j, Json.normal (obj offer) = some j := ⟨_, rfl⟩
  have hparse := Json.parse_stringify_normal hdistinct hj
  obtain ⟨text, htext⟩ : ∃ text, Json.stringify (obj offer) = some text :=
    ⟨_, by rw [Json.stringify]⟩
  rw [htext, Option.bind_some] at hparse
  have hnormal : Json.normal j = some j := Json.normal_of_isJson (Json.isJson_of_parse hparse)
  refine ⟨j, (resolveCredentialOffer_eq_ok hset h htext).mpr ?_, j, j, hnormal, hj, Same.refl j⟩
  cases huri : nonEmpty options.credentialOfferUri with
  | some uri =>
    rw [huri] at hcondition
    have hserves := fun url => hset.serves uri url (nonEmpty_eq_some.mp huri).1
    show fetchCredentialOffer urls fetch uri = .ok (some j)
    rw [fetchCredentialOffer_of_serves hcondition hserves hdistinct hj, hread j hj]
  | none =>
    rw [huri] at hcondition
    exact ⟨j, by rw [decodeURIComponent_of_not_mem (hcondition text htext),
      Option.bind_some, hparse], hread j hj⟩

end

/-! ## An offer of one configuration -/

def exampleWeb : WebUrl where
  Url := String × String
  parse text := some (String.ofList (text.toList.takeWhile (· ≠ '?')),
    String.ofList (text.toList.dropWhile (· ≠ '?')))
  search url := url.2
  setSearch url search := (url.1, search)
  toText url := url.1 ++ url.2

theorem exampleWeb_isLawful : exampleWeb.IsLawful := by
  intro text url cs hurl hne _
  cases hurl
  have hstart : ∀ c ∈ text.toList.takeWhile (· ≠ '?'), decide (c ≠ '?') = true := fun c hc =>
    (List.all_eq_true.mp List.all_takeWhile c hc)
  refine ⟨_, rfl, ?_⟩
  show String.ofList ((String.ofList (text.toList.takeWhile (· ≠ '?')) ++
    String.ofList ('?' :: cs)).toList.dropWhile (· ≠ '?')) = _
  rw [String.toList_append, String.toList_ofList, String.toList_ofList,
    List.dropWhile_append_of_pos hstart]
  rfl

def exampleUrls : Urls where
  zUrl s := if startsWith s "https://" then some s else none
  htu := some
  allowInsecureUrls := false

def exampleOptions (id : String) : CreateCredentialOfferOptions where
  issuerMetadata := {
    credentialIssuer := "https://issuer.example"
    credentialConfigurationsSupported := [(id, obj [])] }
  credentialConfigurationIds := [id]
  grants := []
  generateRandom := fun _ => []

def exampleOffer (id : String) : Members :=
  [("credential_issuer", str "https://issuer.example"),
    ("credential_configuration_ids", arr [str id]), ("grants", obj [])]

theorem zOffer_exampleOffer {id : String} (h : id ≠ "") :
    zCredentialOfferObject exampleUrls (obj (exampleOffer id)) = some (obj (exampleOffer id)) := by
  have hurl : (exampleUrls.zUrl "https://issuer.example").filter
      (fun url => startsWithIgnoreCase url "https://" ||
      exampleUrls.allowInsecureUrls && startsWithIgnoreCase url "http://") =
        some "https://issuer.example" := by
    decide +kernel
  have hhttps : zHttpsUrl exampleUrls (str "https://issuer.example") =
      some (str "https://issuer.example") := by
    rw [zHttpsUrl, hurl]
    rfl
  have hids : array zNonEmptyString (arr [str id]) = some (arr [str id]) := by
    have hid : zNonEmptyString (str id) = some (str id) := if_pos h
    rw [array, List.mapM_cons, hid]
    rfl
  have hknown : parseShape (credentialOfferShape exampleUrls) (exampleOffer id) =
      some (exampleOffer id) :=
    parseShape_cons.mpr ⟨_, _, hhttps,
      parseShape_cons.mpr ⟨_, _, hids, parseShape_cons.mpr ⟨obj [], [], rfl, rfl, rfl⟩, rfl⟩, rfl⟩
  refine Option.or_eq_some_iff.mpr (.inl ?_)
  rw [zCredentialOfferObjectDraft14, looseObject, hknown]
  rfl

theorem createCredentialOfferObject_exampleOptions {id : String} (h : id ≠ "") :
    createCredentialOfferObject exampleUrls (exampleOptions id) = .ok (exampleOffer id) := by
  have hinput : offerInput (exampleOptions id) [] = exampleOffer id := rfl
  have hids : (exampleOptions id).credentialConfigurationIds.filter (fun id' =>
      isUndefined ((obj (exampleOptions id).issuerMetadata.credentialConfigurationsSupported).get
        id')) = [] := by
    show [id].filter (fun id' => isUndefined ((obj [(id, obj [])]).get id')) = []
    rw [List.filter_cons_of_neg, List.filter_nil]
    rw [get_obj_of_some (lookup_cons_of_eq _ _ _)]
    exact nofun
  have hgrants : offerGrants (exampleOptions id) = .ok [] := rfl
  rw [createCredentialOfferObject, hgrants, ok_bind]
  simp only [hids, check, decide_true, if_true, ok_bind, hinput, zOffer_exampleOffer h]
  rfl

/-- The URL that is created for the offer of one configuration. -/
def exampleUrl (id : String) : String :=
  exampleWeb.toText ("openid-credential-offer://", String.ofList ('?' :: UrlSearchParams.serialize
    (offerParams (exampleOptions id) (exampleOffer id))))

theorem parse_exampleWeb :
    exampleWeb.parse "openid-credential-offer://" = some ("openid-credential-offer://", "") := by
  have hbase : String.ofList ("openid-credential-offer://".toList.takeWhile (· ≠ '?')) =
      "openid-credential-offer://" := by
    decide +kernel
  have hsearch : String.ofList ("openid-credential-offer://".toList.dropWhile (· ≠ '?')) = "" := by
    decide +kernel
  exact congrArg some (Prod.ext hbase hsearch)

theorem createCredentialOffer_exampleOptions {id : String} (h : id ≠ "") :
    createCredentialOffer exampleWeb exampleUrls (exampleOptions id) =
      .ok (exampleUrl id, exampleOffer id) :=
  createCredentialOffer_eq_ok.mpr ⟨createCredentialOfferObject_exampleOptions h,
    ("openid-credential-offer://", ""), parse_exampleWeb, rfl⟩

theorem setting_example (fetch : Fetch) (id : String) :
    Setting exampleWeb exampleUrls fetch (exampleOptions id) (exampleOffer id) where
  lawful := exampleWeb_isLawful
  settle s url h := by
    change (if startsWith s "https://" then some s else none) = some url at h
    split_ifs at h with hs
    cases h
    exact if_pos hs
  grants := .obj List.nodup_nil nofun
  additionalPayload := .obj List.nodup_nil nofun
  scheme url hurl := by
    obtain rfl := Option.some.inj (parse_exampleWeb.symm.trans hurl)
    exact nofun
  serves _ _ h := nomatch h

theorem resolvesTo_of_create_example :
    ResolvesTo exampleWeb exampleUrls (fun _ _ => .error "") (exampleUrl "pid")
    (exampleOffer "pid") := by
  refine resolvesTo_of_create (setting_example _ "pid")
    (createCredentialOffer_exampleOptions (by decide)) ?_
  intro text htext
  have hpercent : (Json.stringify (obj (exampleOffer "pid"))).all ('%' ∉ ·) = true := by
    decide +kernel
  rw [htext] at hpercent
  exact of_decide_eq_true hpercent

/-- A percent sign is decoded once by the parameters and once more after that. -/
theorem not_resolvesTo_of_percent :
    Setting exampleWeb exampleUrls (fun _ _ => .error "") (exampleOptions "a%20b")
      (exampleOffer "a%20b") ∧
      createCredentialOffer exampleWeb exampleUrls (exampleOptions "a%20b") =
        .ok (exampleUrl "a%20b", exampleOffer "a%20b") ∧
      resolveCredentialOffer exampleWeb exampleUrls (fun _ _ => .error "") (exampleUrl "a%20b") =
        .ok (obj (exampleOffer "a b")) ∧
      ¬ResolvesTo exampleWeb exampleUrls (fun _ _ => .error "") (exampleUrl "a%20b")
        (exampleOffer "a%20b") := by
  have hset := setting_example (fun _ _ => .error "") "a%20b"
  have hne : "a%20b" ≠ "" := by decide
  have hcreate := createCredentialOffer_exampleOptions hne
  obtain ⟨text, htext⟩ : ∃ text, Json.stringify (obj (exampleOffer "a%20b")) = some text :=
    ⟨_, by rw [Json.stringify]⟩
  have hdecode : (Json.stringify (obj (exampleOffer "a%20b"))).bind decodeURIComponent =
      Json.stringify (obj (exampleOffer "a b")) := by
    decide +kernel
  have hjson : (obj (exampleOffer "a b")).IsJson := .of_isJson (by decide +kernel)
  have hresolve : resolveCredentialOffer exampleWeb exampleUrls (fun _ _ => .error "")
      (exampleUrl "a%20b") =
      .ok (obj (exampleOffer "a b")) := by
    refine (resolveCredentialOffer_eq_ok hset hcreate htext).mpr ⟨obj (exampleOffer "a b"), ?_,
      zOffer_exampleOffer (by decide)⟩
    rw [htext, Option.bind_some] at hdecode
    rw [hdecode, Json.parse_stringify hjson]
  refine ⟨hset, hcreate, hresolve, ?_⟩
  rintro ⟨resolved, hresolved, i, j, hi, hj, hsame⟩
  obtain rfl := Except.ok.inj (hresolve.symm.trans hresolved)
  have hfirst := hsame [.name "credential_configuration_ids", .index 0]
  cases hi
  cases hj
  have hid : some (str "a b") = some (str "a%20b") := hfirst
  simp at hid

end IdentityCommon.Openid4vci
