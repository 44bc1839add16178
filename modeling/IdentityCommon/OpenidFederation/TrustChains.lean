import IdentityCommon.Ecma.UrlSearchParams
import IdentityCommon.Lib.Computation
import IdentityCommon.Lib.ConcurrentSearch
import IdentityCommon.Oauth2.Fetch
import IdentityCommon.OpenidFederation.EntityStatement

/-!
# Trust chains

The trust chains of an entity: the authority hints are followed up to the trust anchors,
concurrently, and each path that is found is validated with the subordinate statements of its
superiors.

## Main definitions

- `fetchEntityConfiguration`, `discovery` — what an entity leads to, and the search along the
  authority hints
- `validatePath` — the trust chain of a path
- `Resolves` — what the resolution returns, in any order of the steps of the search

## Design notes

What a request is answered may change from one request to the next: an answer belongs to the
occasion of its request, and each occasion comes once in a resolution. The counts of the options are
natural numbers. -/

namespace IdentityCommon.OpenidFederation

open IdentityCommon.Except IdentityCommon.Computation AssocList Ecma Value Common ConcurrentSearch

/-! ## Options -/

/-- The keys of a trust anchor, if they are known. -/
structure TrustAnchor where
  entityId : String
  jwks : Option Value

/-- What a request is for: the configuration of an entity, or the statement at an index of a
path. -/
inductive Occasion
  | entityConfiguration (id : String)
  | statement (path index : ℕ)
  deriving DecidableEq

structure ResolveTrustChainsOptions where
  verifyJwtCallback : VerifyCallback
  entityId : String
  trustAnchors : List TrustAnchor
  fetchCallback : Occasion → String → Except String Oauth2.FetchResponse
  now : Date
  clockSkewSeconds : Double := .finite (.ofInt 0 (by decide))
  maxDepth : ℕ := 8
  maxRequests : ℕ := 64
  maxAuthorityHints : ℕ := 10
  understoodCriticalClaims : List String := []
  schemas : ClaimSchemas

structure FetchedStatement where
  jwt : String
  claims : EntityStatementClaims

inductive TrustChainError
  | error (message : String)
  | policy (error : PolicyError)
  | typeError

def ENTITY_STATEMENT_CONTENT_TYPE : String := "application/entity-statement+jwt"

variable (options : ResolveTrustChainsOptions)

def findTrustAnchor (id : String) : Option TrustAnchor :=
  options.trustAnchors.find? (·.entityId = id)

/-! ## Requests -/

/-- The characters before the first `://`, and those after it. -/
def splitAtSeparator : List Char → List Char × Option (List Char)
  | ':' :: '/' :: '/' :: rest => ([], some rest)
  | c :: rest => (c :: (splitAtSeparator rest).1, (splitAtSeparator rest).2)
  | [] => ([], none)

/-- `const [scheme, rest] = baseUrl.split('://')`, where the rest is there and is not empty. -/
def schemeAndRest (baseUrl : String) : Option (String × String) :=
  match splitAtSeparator baseUrl.toList with
  | (scheme, some rest) =>
    match (splitAtSeparator rest).1 with
    | [] => none
    | rest => some (String.ofList scheme, String.ofList rest)
  | (_, none) => none

def addPaths (baseUrl : String) (paths : List String) : Except String String :=
  match schemeAndRest baseUrl with
  | some (scheme, rest) =>
    .ok (scheme ++ "://" ++
      "/".intercalate ((split rest '/' ++ paths.flatMap (split · '/')).filter (· ≠ "")))
  | none => .error "not a valid URL"

def addSearchParams (baseUrl : String) (searchParams : List (String × String)) : String :=
  let query := String.ofList (UrlSearchParams.serialize searchParams)
  if '?' ∉ baseUrl.toList then baseUrl ++ "?" ++ query
  else if baseUrl.toList.getLast? = some '?' ∨
  baseUrl.toList.getLast? = some '&' then baseUrl ++ query
  else baseUrl ++ "&" ++ query

/-- `fetcher.get`, of a text. -/
def fetcherGet (occasion : Occasion) (url : String) (searchParams : List (String × String)) :
    Except String String := do
  let urlWithSearchParams := if searchParams = [] then url else addSearchParams url searchParams
  let response ← options.fetchCallback occasion urlWithSearchParams
  if !response.ok then
    .error ("request to '" ++ urlWithSearchParams ++ "' failed with status " ++
      response.status.repr)
  else if !Oauth2.isMediaType response.contentType [ENTITY_STATEMENT_CONTENT_TYPE] then
    .error ("received content-type '" ++ response.contentType.getD "null" ++
      "' does not equal expected content-type '" ++ ENTITY_STATEMENT_CONTENT_TYPE ++ "'")
  else response.text

def requestsError : TrustChainError :=
  .error ("trust chain resolution exceeded " ++ options.maxRequests.repr ++ " requests")

def visitsError : TrustChainError :=
  .error ("trust chain resolution exceeded " ++ options.maxRequests.repr ++ " entity visits")

/-! ## The checks of a statement -/

def aboutIssuedBy (claims : EntityStatementClaims) : String :=
  "statement about '" ++ claims.sub ++ "' issued by '" ++ claims.iss ++ "'"

def skewMs : Double := options.clockSkewSeconds.mul thousand

def notUnderstood (claims : EntityStatementClaims) : List String :=
  (claims.crit.getD []).filter (· ∉ options.understoodCriticalClaims)

def assertCurrent (claims : EntityStatementClaims) : Except String Unit :=
  if claims.iat.isNone ∨ claims.exp.isNone then
    .error (aboutIssuedBy claims ++ " has an invalid iat or exp")
  else if (options.now.getTime.add (skewMs options)).lt claims.iat.getTime then
    .error (aboutIssuedBy claims ++ " has an iat in the future")
  else if claims.exp.getTime.le (options.now.getTime.sub (skewMs options)) then
    .error (aboutIssuedBy claims ++ " has expired")
  else if notUnderstood options claims ≠ [] then
    .error (aboutIssuedBy claims ++ " has critical claims that are not understood: " ++
      ", ".intercalate (notUnderstood options claims))
  else .ok ()

/-- The names of the claims that are there. -/
def present (claims : List (String × Bool)) : List String := (claims.filter (·.2)).map (·.1)

def onlyInStatements (claims : EntityStatementClaims) : List String :=
  present [("metadata_policy", claims.policy.metadataPolicy.isSome),
    ("metadata_policy_crit", claims.policy.metadataPolicyCrit.isSome),
    ("constraints", claims.constraints.isSome), ("source_endpoint", claims.sourceEndpoint.isSome)]

def assertEntityConfigurationClaims (claims : EntityStatementClaims) : Except String Unit :=
  if onlyInStatements claims ≠ [] then
    .error ("entity configuration of '" ++ claims.sub ++ "' contains " ++
      ", ".intercalate (onlyInStatements claims) ++
      ", which only subordinate statements may contain")
  else if claims.authorityHints = some [] then
    .error ("entity configuration of '" ++ claims.sub ++ "' has an empty authority_hints array")
  else .ok ()

def onlyInConfigurations (claims : EntityStatementClaims) : List String :=
  present [("authority_hints", claims.authorityHints.isSome),
    ("trust_marks", claims.trustMarks.isSome), ("trust_mark_issuers",
      claims.trustMarkIssuers.isSome), ("trust_mark_owners", claims.trustMarkOwners.isSome)]

def assertSubordinateStatementClaims (claims : EntityStatementClaims) : Except String Unit :=
  let subordinate := "subordinate " ++ aboutIssuedBy claims
  if onlyInConfigurations claims ≠ [] then
    .error (subordinate ++ " contains " ++ ", ".intercalate (onlyInConfigurations claims) ++
      ", which only entity configurations may contain")
  else match claims.policy.metadataPolicyCrit with
    | none => .ok ()
    | some [] => .error (subordinate ++ " has an empty metadata_policy_crit array")
    | some crit =>
      .error (subordinate ++ " requires policy operators that are not supported: " ++
        ", ".intercalate crit)

/-! ## Discovery -/

def configurationUrl (id : String) : Except String String :=
  addPaths id [".well-known", "openid-federation"]

/-- What the text that was fetched for an entity is. -/
def readEntityConfiguration (id jwt : String) : Except String FetchedStatement := do
  let (_, claims) ← validate (zEntityConfigurationJwt options.schemas jwt)
    ("entity configuration of '" ++ id ++ "' is invalid")
  if claims.sub ≠ id then
    .error ("entity configuration fetched for '" ++ id ++ "' has subject '" ++ claims.sub ++ "'")
  else
    verifyJwtSignature options.verifyJwtCallback jwt none
    assertCurrent options claims
    assertEntityConfigurationClaims claims
    return { jwt, claims }

def fetchEntityConfiguration (id : String) : Except TrustChainError FetchedStatement := do
  let url ← (configurationUrl id).mapError .error
  let jwt ← (fetcherGet options (.entityConfiguration id) url []).mapError .error
  (readEntityConfiguration options id jwt).mapError .error

/-- The superiors that are followed: hints that are not on the path, without repetitions, up to a
number. -/
def collectSuperiors (maxAuthorityHints : ℕ) (localPath : List FetchedStatement)
    (superiors : List String) :
    List String → List String
  | [] => superiors
  | superior :: hints =>
    if superiors.length = maxAuthorityHints then superiors
    else if localPath.any (·.claims.sub = superior) then
      collectSuperiors maxAuthorityHints localPath superiors hints
    else if superior ∈ superiors then collectSuperiors maxAuthorityHints localPath superiors hints
    else collectSuperiors maxAuthorityHints localPath (superiors ++ [superior]) hints

/-- The hints that are followed from the last entity of a path, which is the leaf and its
superiors. -/
def superiorsOf (localPath : List FetchedStatement) : List String :=
  if options.maxDepth < localPath.length then []
  else match localPath.getLast? with
    | some configuration =>
      collectSuperiors options.maxAuthorityHints localPath []
        (configuration.claims.authorityHints.getD [])
    | none => []

def endsAtTrustAnchor (localPath : List FetchedStatement) : Bool :=
  match localPath.getLast? with
  | some configuration => (findTrustAnchor options configuration.claims.sub).isSome
  | none => false

/-- `discover`, as a search whose branches run concurrently. -/
def discovery : Problem String FetchedStatement TrustChainError where
  look := fetchEntityConfiguration options
  requestable id := (configurationUrl id).isOk
  goal := endsAtTrustAnchor options
  next := superiorsOf options
  maxDepth := options.maxDepth
  next_nil _ h := if_pos h
  budget := options.maxRequests
  requestsError := requestsError options
  visitsError := visitsError options

/-! ## Validation -/

/-- The requests that were counted, and those that were made. -/
structure Requests where
  count : ℕ
  made : List Occasion

abbrev Resolution (α : Type) := Comp TrustChainError Requests α

def get (occasion : Occasion) (url : String) (searchParams : List (String × String)) :
    Resolution String :=
  step fun requests =>
    if options.maxRequests < requests.count + 1 then
      (.error (requestsError options), { requests with count := requests.count + 1 })
    else
      ((fetcherGet options occasion url searchParams).mapError .error,
        { count := requests.count + 1, made := requests.made ++ [occasion] })

def check (result : Except String Unit) : Resolution Unit := lift (result.mapError .error)

/-- `superior.claims.metadata?.federation_entity?.federation_fetch_endpoint`, if it is not empty. -/
def fetchEndpoint (claims : EntityStatementClaims) : Option String :=
  match claims.metadata.bind (·.lookup "federation_entity") with
  | some federationEntity =>
    match federationEntity.lookup "federation_fetch_endpoint" with
    | some (str url) => if url = "" then none else some url
    | _ => none
  | none => none

/-- The number of intermediates that a statement allows. -/
def assertPathLength (superior : FetchedStatement) (claims : EntityStatementClaims) (index : ℕ) :
    Except String Unit :=
  match claims.constraints.bind (·.maxPathLength) with
  | none => .ok ()
  | some maxPathLength =>
    if (Double.ofNumber maxPathLength).lt (Double.ofNumber (.ofInt index)) then
      .error ("'" ++ superior.claims.sub ++ "' allows " ++ maxPathLength.toString ++
        " intermediates, the chain has " ++ index.repr)
    else .ok ()

/-- What the text that was fetched from a superior is. -/
def readStatement (index : ℕ) (subject superior : FetchedStatement) (jwt : String) :
    Except String FetchedStatement := do
  let (_, claims) ← validate (zEntityStatementJwt options.schemas jwt)
    ("subordinate statement about '" ++ subject.claims.sub ++ "' issued by '" ++
      superior.claims.sub ++ "' is invalid")
  if claims.iss ≠ superior.claims.sub ∨ claims.sub ≠ subject.claims.sub then
    .error ("subordinate statement requested from '" ++ superior.claims.sub ++ "' about '" ++
      subject.claims.sub ++
      "' has issuer '" ++ claims.iss ++ "' and subject '" ++ claims.sub ++ "'")
  else
    assertCurrent options claims
    assertSubordinateStatementClaims claims
    if (claims.constraints.bind (·.namingConstraints)).isSome then
      .error ("'" ++ superior.claims.sub ++ "' sets naming_constraints, which are not supported")
    else
      assertPathLength superior claims index
      return { jwt, claims }

/-- The statements of a path from an index on, each by an entity about the one before it. -/
def fetchStatements (pathIndex : ℕ) : ℕ → List FetchedStatement → Resolution (List FetchedStatement)
  | index, subject :: superior :: path =>
    match fetchEndpoint superior.claims with
    | none => lift (.error
        (.error ("'" ++ superior.claims.sub ++ "' has no federation_fetch_endpoint")))
    | some endpoint => do
      let jwt ← get options (.statement pathIndex index) endpoint [("sub", subject.claims.sub)]
      let statement ← lift ((readStatement options index subject superior jwt).mapError .error)
      let statements ← fetchStatements pathIndex (index + 1) (superior :: path)
      return statement :: statements
  | _, [_] => return []
  | _, [] => return []

def verifySigner (signed : FetchedStatement) (jwks : Value) (issuer : String) :
    Except String Unit :=
  (verifyJwtSignature options.verifyJwtCallback signed.jwt (some jwks)).mapError fun reason =>
    aboutIssuedBy signed.claims ++ " is not signed with a key listed by '" ++ issuer ++
    "': " ++ reason

/-- Each statement is signed with a key that the next one lists, and the last with a key of the
trust anchor. -/
def verifySigners (trustAnchorConfiguration : FetchedStatement) :
    FetchedStatement → List FetchedStatement → Except String Unit
  | signed, [] => verifySigner options signed trustAnchorConfiguration.claims.jwks
      trustAnchorConfiguration.claims.sub
  | signed, next :: statements => do
    verifySigner options signed next.claims.jwks next.claims.iss
    verifySigners trustAnchorConfiguration next statements

/-- `new Date(Math.min(...times))`. -/
def earliest (dates : List Date) : Date :=
  match dates.mapM id with
  | some (t :: ts) => some (ts.foldl (fun t u => if u.ms < t.ms then u else t) t)
  | _ => none

def mergeMetadata (leafConfigMetadata superiorEntityStatement : Metadata) : Metadata :=
  superiorEntityStatement.foldl (fun merged entity =>
    if hasEntityType merged entity.1 then
      entity.2.foldl (fun merged property =>
        setPropertyValue merged entity.1 property.1 property.2) merged
    else merged) leafConfigMetadata

def restrictEntityTypes (metadata : Metadata) (statements : List EntityStatementClaims) :
    Metadata :=
  let allowed := statements.filterMap fun statement => statement.constraints.bind
    (·.allowedEntityTypes)
  if allowed = [] then metadata
  else metadata.filter fun entity => entity.1 = "federation_entity" || allowed.all (entity.1 ∈ ·)

structure TrustChain where
  chain : List EntityStatementClaims
  jwtChain : List String
  rawLeafEntityConfiguration : EntityStatementClaims
  resolvedLeafMetadata : Option Metadata
  trustAnchorEntityConfiguration : EntityStatementClaims
  expiresAt : Date

/-- The metadata of a leaf under the statements about it and about its superiors. -/
def resolveLeafMetadata (leaf : EntityStatementClaims) (statements : List EntityStatementClaims) :
    Except PolicyError Metadata := do
  let mergedPolicy ← combineMetadataPolicies (statements.map (·.policy))
  let merged := mergeMetadata (leaf.metadata.getD []) ((statements.head?.bind (·.metadata)).getD [])
  applyMetadataPolicyToMetadata (restrictEntityTypes merged statements) mergedPolicy

/-- The trust chain of a path and its statements. -/
def chainOf (path : List FetchedStatement)
    (leafConfiguration trustAnchorConfiguration : FetchedStatement)
    (statements : List FetchedStatement) : Except PolicyError TrustChain :=
  let expiresAt := earliest ((path ++ statements).map (·.claims.exp))
  if statements = [] then .ok {
    chain := [leafConfiguration.claims]
    jwtChain := [leafConfiguration.jwt]
    rawLeafEntityConfiguration := leafConfiguration.claims
    resolvedLeafMetadata := leafConfiguration.claims.metadata
    trustAnchorEntityConfiguration := leafConfiguration.claims
    expiresAt }
  else do
    let resolvedLeafMetadata ← resolveLeafMetadata leafConfiguration.claims
      (statements.map (·.claims))
    return {
      chain := statements.map (·.claims) ++ [trustAnchorConfiguration.claims]
      jwtChain := leafConfiguration.jwt :: statements.map (·.jwt) ++ [trustAnchorConfiguration.jwt]
      rawLeafEntityConfiguration := leafConfiguration.claims
      resolvedLeafMetadata := some resolvedLeafMetadata
      trustAnchorEntityConfiguration := trustAnchorConfiguration.claims
      expiresAt }

/-- The trust anchor has signed its configuration with a key that was configured, if there are
any. -/
def verifyTrustAnchor (trustAnchorConfiguration : FetchedStatement) : Except TrustChainError Unit :=
  match findTrustAnchor options trustAnchorConfiguration.claims.sub with
  | none => .error .typeError
  | some trustAnchor =>
    match trustAnchor.jwks with
    | none => .ok ()
    | some jwks =>
      (verifyJwtSignature options.verifyJwtCallback trustAnchorConfiguration.jwt
        (some jwks)).mapError fun reason =>
        .error ("entity configuration of trust anchor '" ++ trustAnchor.entityId ++
          "' is not signed with a configured key: " ++ reason)

def validatePath (pathIndex : ℕ) (path : List FetchedStatement) : Resolution TrustChain :=
  match path.head?, path.getLast? with
  | some leafConfiguration, some trustAnchorConfiguration => do
    lift (verifyTrustAnchor options trustAnchorConfiguration)
    let statements ← fetchStatements options pathIndex 0 path
    check (if statements = [] then .ok ()
      else verifySigners options trustAnchorConfiguration leafConfiguration statements)
    lift ((chainOf path leafConfiguration trustAnchorConfiguration statements).mapError .policy)
  | _, _ => lift (.error .typeError)

/-! ## Resolution -/

structure TrustChainFailure where
  entityIds : List String
  cause : TrustChainError

structure TrustChainResolution where
  trustChains : List TrustChain
  failures : List TrustChainFailure

/-- The paths are validated one after the other, and the failures are added. -/
def validatePaths : ℕ → List (List FetchedStatement) → Requests → TrustChainResolution × Requests
  | _, [], requests => (⟨[], []⟩, requests)
  | pathIndex, path :: paths, requests =>
    let (result, requests) := outcome (validatePath options pathIndex path) requests
    let (rest, requests) := validatePaths (pathIndex + 1) paths requests
    match result with
    | .ok chain => ({ rest with trustChains := chain :: rest.trustChains }, requests)
    | .error cause =>
      ({ rest with failures := { entityIds := path.map (·.claims.sub), cause } ::
        rest.failures }, requests)

/-- A branch of the search that failed. -/
def failureOf (failure : Failure String FetchedStatement TrustChainError) : TrustChainFailure :=
  { entityIds := failure.path.map (·.claims.sub) ++ [failure.id], cause := failure.error }

/-- What is returned after the search has ended, with the requests that were made. -/
def finish (result : Result FetchedStatement TrustChainError)
    (shared : Shared String FetchedStatement TrustChainError) : TrustChainResolution × Requests :=
  let requests : Requests :=
    { count := shared.requests, made := shared.requested.map .entityConfiguration }
  match result with
  | .error cause =>
      ({ trustChains := [], failures := [{ entityIds := [options.entityId], cause }] }, requests)
  | .ok paths =>
    let (resolution, requests) := validatePaths options 0 paths requests
    ({ resolution with failures := shared.failures.map failureOf ++ resolution.failures }, requests)

/-- What `resolveTrustChainsWithFailures` returns, in some order of the steps of the search, and the
requests it makes. -/
inductive Resolves : TrustChainResolution → List Occasion → Prop
  | intro {n : ℕ} {result : Result FetchedStatement TrustChainError}
      {shared : Shared String FetchedStatement TrustChainError} :
    options.trustAnchors ≠ [] →
    Reaches (discovery options) options.entityId n (.done result) shared →
    Resolves (finish options result shared).1 (finish options result shared).2.made

/-- `resolveTrustChains`. -/
def resolveTrustChains (resolution : TrustChainResolution) : List TrustChain :=
  resolution.trustChains

end IdentityCommon.OpenidFederation
