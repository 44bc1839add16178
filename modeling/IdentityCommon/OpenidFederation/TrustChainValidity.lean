import IdentityCommon.OpenidFederation.ChainMetadata
import IdentityCommon.OpenidFederation.CreateStatement
import IdentityCommon.OpenidFederation.TrustChainDiscovery

/-!
# Validity of trust chains

What every trust chain that a resolution returns is, whatever the order of the steps of the search
and whatever the requests are answered.

## Main definitions

- `IsStatement`, `Issued` — a statement of a superior about a subordinate, and those of a path
- `SignedInChain` — signatures with the keys that the next statement lists
- `ValidTrustChain` — a trust chain with the statements that it is made of

## Main results

- `trustChains_valid` — every trust chain that is returned is valid
-/

namespace IdentityCommon.OpenidFederation

open IdentityCommon.Except IdentityCommon.Computation AssocList Ecma Value Common ConcurrentSearch

variable {options : ResolveTrustChainsOptions}

/-! ## Statements -/

/-- A statement of a superior about a subject, with as many intermediates between the leaf and the
superior as the index says. -/
structure IsStatement (options : ResolveTrustChainsOptions) (index : ℕ)
    (subject superior statement : FetchedStatement) : Prop where
  parsed : ∃ header, zEntityStatementJwt options.schemas statement.jwt =
    some (header, statement.claims)
  issuer : statement.claims.iss = superior.claims.sub
  subject : statement.claims.sub = subject.claims.sub
  current : Current options statement.claims
  kind : onlyInConfigurations statement.claims = []
  supported : statement.claims.policy.metadataPolicyCrit = none
  unconstrained : statement.claims.constraints.bind (·.namingConstraints) = none
  pathLength : ∀ max, statement.claims.constraints.bind (·.maxPathLength) = some max →
    (Double.ofNumber max).lt (Double.ofNumber (.ofInt index)) = false

theorem readStatement_eq_ok {index : ℕ}
    {subject superior statement : FetchedStatement} {jwt : String}
    (h : readStatement options index subject superior jwt = .ok statement) :
    IsStatement options index subject superior statement := by
  obtain ⟨⟨header, claims⟩, hparse, hchecks⟩ := bind_eq_ok.mp h
  rw [validate_eq_ok] at hparse
  dsimp only at hchecks
  split at hchecks
  case isTrue => cases hchecks
  case isFalse hids =>
    obtain ⟨hiss, hsub⟩ := not_or.mp hids
    obtain ⟨_, hcurrent, hchecks⟩ := bind_eq_ok.mp hchecks
    obtain ⟨_, hkind, hchecks⟩ := bind_eq_ok.mp hchecks
    split at hchecks
    case isTrue => cases hchecks
    case isFalse hnaming =>
      obtain ⟨_, hlength, hresult⟩ := bind_eq_ok.mp hchecks
      cases hresult
      rw [assertSubordinateStatementClaims] at hkind
      split_ifs at hkind with honly
      refine ⟨⟨header, hparse⟩, not_not.mp hiss, not_not.mp hsub, current_of_assertCurrent hcurrent,
        not_not.mp honly, ?_, Option.not_isSome_iff_eq_none.mp hnaming, fun max hmax => ?_⟩
      · split at hkind
        case h_1 hnone => exact hnone
        case h_2 => cases hkind
        case h_3 => cases hkind
      · rw [assertPathLength, hmax] at hlength
        dsimp only at hlength
        split_ifs at hlength with hover
        exact Bool.eq_false_iff.mpr hover

/-- The statements of a path from an index on, each of an entity about the one before it. -/
inductive Issued (options : ResolveTrustChainsOptions) :
    ℕ → List FetchedStatement → List FetchedStatement → Prop
  | last (index : ℕ) (trustAnchorConfiguration : FetchedStatement) :
      Issued options index [trustAnchorConfiguration] []
  | next {index : ℕ} {subject superior statement : FetchedStatement}
      {path statements : List FetchedStatement} :
    IsStatement options index subject superior statement →
    Issued options (index + 1) (superior :: path) statements →
      Issued options index (subject :: superior :: path) (statement :: statements)

theorem fetchStatements_eq_ok {pathIndex index : ℕ} {path statements : List FetchedStatement}
    {requests requests' : Requests} (hpath : path ≠ [])
    (h : outcome (fetchStatements options pathIndex index path) requests =
      (.ok statements, requests')) :
    Issued options index path statements := by
  induction path generalizing index statements requests with
  | nil => exact absurd rfl hpath
  | cons subject path ih =>
    cases path with
    | nil =>
      rw [fetchStatements] at h
      cases h
      exact .last index subject
    | cons superior path =>
      rw [fetchStatements] at h
      split at h
      case h_1 => cases h
      case h_2 endpoint _ =>
        obtain ⟨jwt, r₁, -, h⟩ := Computation.bind_eq_ok.mp h
        obtain ⟨statement, r₂, hread, h⟩ := Computation.bind_eq_ok.mp h
        obtain ⟨rest, r₃, hrest, h⟩ := Computation.bind_eq_ok.mp h
        cases h
        obtain ⟨hread, -⟩ := lift_eq_ok.mp hread
        exact .next (readStatement_eq_ok (mapError_eq_ok.mp hread))
          (ih (List.cons_ne_nil _ _) hrest)

/-- The keys of a statement that was fetched are a key set. -/
theorem IsStatement.keySet {index : ℕ} {subject superior statement : FetchedStatement}
    (h : IsStatement options index subject superior statement) :
    zJsonWebKeySet statement.claims.jwks = some statement.claims.jwks := by
  obtain ⟨header, hparse⟩ := h.parsed
  obtain ⟨parts, -, -, hclaims⟩ := parseJsonWebToken_of_zJsonWebToken hparse
  exact zJsonWebKeySet_jwks hclaims

theorem IsConfiguration.keySet {configuration : FetchedStatement}
    (h : IsConfiguration options configuration) :
    zJsonWebKeySet configuration.claims.jwks = some configuration.claims.jwks := by
  obtain ⟨header, hparse⟩ := h.parsed
  obtain ⟨parts, -, -, hclaims⟩ := parseJsonWebToken_of_zJsonWebToken hparse
  exact zJsonWebKeySet_jwks (Option.filter_eq_some_iff.mp hclaims).1

theorem Issued.keySets {index : ℕ} {path statements : List FetchedStatement}
    (h : Issued options index path statements) :
    ∀ statement ∈ statements, zJsonWebKeySet statement.claims.jwks =
      some statement.claims.jwks := by
  induction h with
  | last => exact fun _ hmem => absurd hmem List.not_mem_nil
  | next hstatement _ ih => exact List.forall_mem_cons.mpr ⟨hstatement.keySet, ih⟩

/-! ## Signatures -/

/-- Each of some statements is signed with a key that the next one lists, the last with a key of the
trust anchor. -/
def SignedInChain (options : ResolveTrustChainsOptions)
    (trustAnchorConfiguration : FetchedStatement) :
    FetchedStatement → List FetchedStatement → Prop
  | signed, [] => SignedBy options.verifyJwtCallback signed.jwt trustAnchorConfiguration.claims.jwks
  | signed, next :: statements => SignedBy options.verifyJwtCallback signed.jwt next.claims.jwks ∧
    SignedInChain options trustAnchorConfiguration next statements

theorem verifySigners_eq_ok {trustAnchorConfiguration signed : FetchedStatement}
    {statements : List FetchedStatement}
    (hanchor : zJsonWebKeySet trustAnchorConfiguration.claims.jwks =
      some trustAnchorConfiguration.claims.jwks)
    (hkeys : ∀ statement ∈ statements, zJsonWebKeySet statement.claims.jwks =
      some statement.claims.jwks)
    (h : verifySigners options trustAnchorConfiguration signed statements = .ok ()) :
    SignedInChain options trustAnchorConfiguration signed statements := by
  induction statements generalizing signed with
  | nil => exact signed_of_verifyJwtSignature (mapError_eq_ok.mp h) hanchor
  | cons next statements ih =>
    obtain ⟨hnext, hkeys⟩ := List.forall_mem_cons.mp hkeys
    obtain ⟨_, hsigned, h⟩ := bind_eq_ok.mp h
    exact ⟨signed_of_verifyJwtSignature (mapError_eq_ok.mp hsigned) hnext, ih hkeys h⟩

/-- The trust anchor has signed its configuration with one of the keys that were configured for
it. -/
def SignedByConfigured (options : ResolveTrustChainsOptions)
    (trustAnchorConfiguration : FetchedStatement) : Prop :=
  ∃ trustAnchor, findTrustAnchor options trustAnchorConfiguration.claims.sub = some trustAnchor ∧
    ∀ jwks, trustAnchor.jwks = some jwks → ∃ keySet, zJsonWebKeySet jwks = some keySet ∧
      SignedBy options.verifyJwtCallback trustAnchorConfiguration.jwt keySet

theorem verifyTrustAnchor_eq_ok {trustAnchorConfiguration : FetchedStatement}
    (h : verifyTrustAnchor options trustAnchorConfiguration = .ok ()) :
    SignedByConfigured options trustAnchorConfiguration := by
  rw [verifyTrustAnchor] at h
  split at h
  case h_1 => cases h
  case h_2 trustAnchor hanchor =>
    refine ⟨trustAnchor, hanchor, fun jwks hjwks => ?_⟩
    rw [hjwks] at h
    obtain ⟨parts, members, keySet, -, hmembers, hset, hsigned⟩ :=
      verifyJwtSignature_eq_ok (mapError_eq_ok.mp h)
    obtain rfl := Value.obj.inj hmembers
    exact ⟨keySet, hset, hsigned⟩

/-! ## Expiry -/

theorem foldl_earliest (t : TimeValue) (ts : List TimeValue) :
    ts.foldl (fun t u => if u.ms < t.ms then u else t) t ∈ t :: ts ∧
      ∀ u ∈ t :: ts, (ts.foldl (fun t u => if u.ms < t.ms then u else t) t).ms ≤ u.ms := by
  induction ts generalizing t with
  | nil => exact ⟨List.mem_singleton_self t, fun u hu => (List.mem_singleton.mp hu ▸ le_rfl)⟩
  | cons v ts ih =>
    rw [List.foldl_cons]
    by_cases hlt : v.ms < t.ms
    · rw [if_pos hlt]
      obtain ⟨hmem, hle⟩ := ih v
      refine ⟨List.mem_cons_of_mem _ hmem, List.forall_mem_cons.mpr ⟨?_, hle⟩⟩
      have hv := hle v List.mem_cons_self
      omega
    · rw [if_neg hlt]
      obtain ⟨hmem, hle⟩ := ih t
      have ht := hle t List.mem_cons_self
      refine ⟨?_, List.forall_mem_cons.mpr ⟨ht, List.forall_mem_cons.mpr ⟨by omega, ?_⟩⟩⟩
      · rcases List.mem_cons.mp hmem with hmem | hmem
        · rw [hmem]
          exact List.mem_cons_self
        · exact List.mem_cons_of_mem _ (List.mem_cons_of_mem _ hmem)
      · exact fun u hu => hle u (List.mem_cons_of_mem _ hu)

/-- The earliest of some dates that are all valid. -/
theorem earliest_spec {dates : List Date} (hne : dates ≠ [])
    (hvalid : ∀ date ∈ dates, date.isSome) :
    ∃ t, earliest dates = some t ∧ some t ∈ dates ∧ ∀ u, some u ∈ dates → t.ms ≤ u.ms := by
  obtain ⟨times, rfl⟩ : ∃ times : List TimeValue, times.map some = dates := by
    clear hne
    induction dates with
    | nil => exact ⟨[], rfl⟩
    | cons date dates ih =>
      obtain ⟨hdate, hdates⟩ := List.forall_mem_cons.mp hvalid
      obtain ⟨t, rfl⟩ := Option.isSome_iff_exists.mp hdate
      obtain ⟨times, rfl⟩ := ih hdates
      exact ⟨t :: times, rfl⟩
  cases times with
  | nil => exact absurd rfl hne
  | cons t ts =>
    have hall : ((t :: ts).map some).mapM id = some (t :: ts) := mapM_eq_some.mpr (by
      rw [List.forall₂_map_left_iff]
      exact List.forall₂_same.mpr fun _ _ => rfl)
    obtain ⟨hmem, hle⟩ := foldl_earliest t ts
    refine ⟨ts.foldl (fun t u => if u.ms < t.ms then u else t) t, ?_, List.mem_map_of_mem hmem,
      fun u hu => ?_⟩
    · rw [earliest, hall]
    · obtain ⟨v, hv, heq⟩ := List.mem_map.mp hu
      exact Option.some.inj heq ▸ hle v hv

/-! ## Trust chains -/

/-- A trust chain that is valid, with the configurations and the statements that it is made of. -/
structure ValidTrustChain (options : ResolveTrustChainsOptions) (trustChain : TrustChain) where
  path : List FetchedStatement
  leafConfiguration : FetchedStatement
  trustAnchorConfiguration : FetchedStatement
  statements : List FetchedStatement
  isPath : IsPath options path
  head_eq : path.head? = some leafConfiguration
  last_eq : path.getLast? = some trustAnchorConfiguration
  issued : Issued options 0 path statements
  signed : statements ≠ [] →
    SignedInChain options trustAnchorConfiguration leafConfiguration statements
  configured : SignedByConfigured options trustAnchorConfiguration
  chain_eq : trustChain.chain = statements.map (·.claims) ++ [trustAnchorConfiguration.claims]
  jwtChain_eq : trustChain.jwtChain =
    if statements = [] then [leafConfiguration.jwt]
    else leafConfiguration.jwt :: statements.map (·.jwt) ++ [trustAnchorConfiguration.jwt]
  leaf_eq : trustChain.rawLeafEntityConfiguration = leafConfiguration.claims
  trustAnchor_eq : trustChain.trustAnchorEntityConfiguration = trustAnchorConfiguration.claims
  /-- The chain expires with the first of its statements. -/
  expiresAt : ∃ t, trustChain.expiresAt = some t ∧
    some t ∈ (path ++ statements).map (·.claims.exp) ∧
    ∀ u, some u ∈ (path ++ statements).map (·.claims.exp) → t.ms ≤ u.ms
  /-- The metadata are those that the policies of the statements leave. -/
  metadata : statements ≠ [] → ∃ resolved, trustChain.resolvedLeafMetadata = some resolved ∧
    resolveLeafMetadata leafConfiguration.claims (statements.map (·.claims)) = .ok resolved
  /-- The entity types are those of the leaf that every statement allows. -/
  entityTypes : ∀ entityType, isInherited entityType = false →
    (HasService entityType (trustChain.resolvedLeafMetadata.getD []) ↔
      HasService entityType (leafConfiguration.claims.metadata.getD []) ∧
        ∀ statement ∈ statements, Allows statement.claims entityType)

theorem Issued.current {index : ℕ} {path statements : List FetchedStatement}
    (h : Issued options index path statements) :
    ∀ statement ∈ statements, Current options statement.claims := by
  induction h with
  | last => exact fun _ hmem => absurd hmem List.not_mem_nil
  | next hstatement _ ih => exact List.forall_mem_cons.mpr ⟨hstatement.current, ih⟩

/-- A path that is validated makes a valid trust chain. -/
theorem validatePath_eq_ok {pathIndex : ℕ} {path : List FetchedStatement}
    {requests requests' : Requests} {trustChain : TrustChain} (hpath : IsPath options path)
    (h : outcome (validatePath options pathIndex path) requests = (.ok trustChain, requests')) :
    Nonempty (ValidTrustChain options trustChain) := by
  rw [validatePath] at h
  split at h
  case h_2 => cases h
  case h_1 leafConfiguration trustAnchorConfiguration hhead hlast =>
    have hne : path ≠ [] := by
      rintro rfl
      cases hhead
    obtain ⟨_, r₁, hanchor, h⟩ := Computation.bind_eq_ok.mp h
    obtain ⟨statements, r₂, hstatements, h⟩ := Computation.bind_eq_ok.mp h
    obtain ⟨_, r₃, hsigners, h⟩ := Computation.bind_eq_ok.mp h
    obtain ⟨hchain, -⟩ := lift_eq_ok.mp h
    have hchain := mapError_eq_ok.mp hchain
    have hconfigured := verifyTrustAnchor_eq_ok (lift_eq_ok.mp hanchor).1
    have hissued := fetchStatements_eq_ok hne hstatements
    have hexpiry : ∃ t, earliest ((path ++ statements).map (·.claims.exp)) = some t ∧
        some t ∈ (path ++ statements).map (·.claims.exp) ∧
        ∀ u, some u ∈ (path ++ statements).map (·.claims.exp) → t.ms ≤ u.ms :=
      earliest_spec (by simp [hne]) (fun date hdate => by
        obtain ⟨entry, hentry, rfl⟩ := List.mem_map.mp hdate
        rcases List.mem_append.mp hentry with hentry | hentry
        · exact (hpath.configurations entry hentry).current.exp
        · exact (hissued.current entry hentry).exp)
    have hsigned : statements ≠ [] →
        SignedInChain options trustAnchorConfiguration leafConfiguration statements := by
      intro hsome
      rw [if_neg hsome] at hsigners
      have hkeys := (hpath.configurations _ (List.mem_of_getLast? hlast)).keySet
      exact verifySigners_eq_ok hkeys hissued.keySets (mapError_eq_ok.mp (lift_eq_ok.mp hsigners).1)
    rw [chainOf] at hchain
    by_cases hnone : statements = []
    · -- the leaf is the trust anchor
      subst hnone
      rw [if_pos rfl] at hchain
      cases hchain
      have hsame : leafConfiguration = trustAnchorConfiguration := by
        cases hissued with
        | last => exact Option.some.inj (hhead.symm.trans hlast)
      exact ⟨{
        path, leafConfiguration, trustAnchorConfiguration, statements := [], isPath := hpath,
        head_eq := hhead
        last_eq := hlast, issued := hissued, signed := hsigned, configured := hconfigured,
        chain_eq := by rw [← hsame]; rfl
        jwtChain_eq := rfl, leaf_eq := rfl,
        trustAnchor_eq := congrArg FetchedStatement.claims hsame, expiresAt := hexpiry
        metadata := fun hsome => absurd rfl hsome
        entityTypes := fun entityType _ =>
          (and_iff_left fun _ hmem => absurd hmem List.not_mem_nil).symm }⟩
    · rw [if_neg hnone] at hchain
      obtain ⟨resolved, hresolved, hchain⟩ := bind_eq_ok.mp hchain
      cases hchain
      exact ⟨{
        path, leafConfiguration, trustAnchorConfiguration, statements, isPath := hpath,
        head_eq := hhead
        last_eq := hlast, issued := hissued, signed := hsigned, configured := hconfigured,
        chain_eq := rfl
        jwtChain_eq := (if_neg hnone).symm, leaf_eq := rfl, trustAnchor_eq := rfl,
        expiresAt := hexpiry
        metadata := fun _ => ⟨resolved, rfl, hresolved⟩
        entityTypes := fun entityType hown => by
          have hmap : (∀ statement ∈ statements.map (·.claims), Allows statement entityType) ↔
              ∀ statement ∈ statements, Allows statement.claims entityType := List.forall_mem_map
          rw [Option.getD_some, hasService_resolveLeafMetadata hown hresolved, hmap] }⟩

theorem validatePaths_valid {pathIndex : ℕ} {paths : List (List FetchedStatement)}
    {requests : Requests} (hpaths : ∀ path ∈ paths, IsPath options path) :
    ∀ trustChain ∈ (validatePaths options pathIndex paths requests).1.trustChains,
      Nonempty (ValidTrustChain options trustChain) := by
  induction paths generalizing pathIndex requests with
  | nil => exact fun _ hmem => absurd hmem List.not_mem_nil
  | cons path paths ih =>
    obtain ⟨hpath, hpaths⟩ := List.forall_mem_cons.mp hpaths
    rw [validatePaths]
    rcases hresult : outcome (validatePath options pathIndex path) requests with ⟨result, requests'⟩
    cases result with
    | ok trustChain => exact List.forall_mem_cons.mpr ⟨validatePath_eq_ok hpath hresult, ih hpaths⟩
    | error cause => exact ih hpaths

/-- Every trust chain that a resolution returns is valid. -/
theorem trustChains_valid {resolution : TrustChainResolution} {made : List Occasion}
    (h : Resolves options resolution made) :
    ∀ trustChain ∈ resolveTrustChains resolution,
    Nonempty (ValidTrustChain options trustChain) := by
  obtain @⟨n, result, shared, -, hreaches⟩ := h
  cases result with
  | error cause => exact fun _ hmem => absurd hmem List.not_mem_nil
  | ok paths => exact validatePaths_valid (isPath_of_reaches hreaches)

/-! ## A leaf with two superiors -/

/-- The claims that an example statement is read with. -/
def exampleRead (iss sub : String) (authorityHints : Option (List String))
    (metadata : Option Metadata) : EntityStatementClaims where
  iss := iss
  sub := sub
  iat := secondsToDate (.ofNumber (.ofInt 0))
  exp := secondsToDate (.ofNumber (.ofInt 2))
  jwks := exampleKeys sub
  authorityHints := authorityHints
  metadata := metadata
  policy := ⟨none, none, nofun⟩
  constraints := none
  crit := none
  trustMarks := none
  trustMarkIssuers := none
  trustMarkOwners := none
  sourceEndpoint := none

theorem read_dates {read : Date → Date → Option EntityStatementClaims}
    {claims : Option EntityStatementClaims}
    (h : read (secondsToDate (.ofNumber (.ofInt 0)))
      (secondsToDate (.ofNumber (.ofInt 2))) = claims) :
    ((zDate (num (.ofInt 0))).bind fun iat =>
      (zDate (num (.ofInt 2))).bind fun exp => read iat exp) = claims := by
  have hiat : zDate (num (.ofInt 0)) = some (secondsToDate (.ofNumber (.ofInt 0))) :=
    if_pos (by decide +kernel)
  have hexp : zDate (num (.ofInt 2)) = some (secondsToDate (.ofNumber (.ofInt 2))) :=
    if_pos (by decide +kernel)
  rw [hiat, hexp]
  exact h

theorem assertCurrent_exampleRead (iss sub : String) (authorityHints : Option (List String))
    (metadata : Option Metadata) :
    assertCurrent exampleOptions (exampleRead iss sub authorityHints metadata) = .ok () := by
  have hvalid : ¬ ((secondsToDate (.ofNumber (.ofInt 0))).isNone = true ∨
      (secondsToDate (.ofNumber (.ofInt 2))).isNone = true) := by
    decide +kernel
  have hiat : ¬ (exampleOptions.now.getTime.add (skewMs exampleOptions)).lt
      (Date.getTime (secondsToDate (.ofNumber (.ofInt 0)))) = true := by decide +kernel
  have hexp : ¬ (Date.getTime (secondsToDate (.ofNumber (.ofInt 2)))).le
      (exampleOptions.now.getTime.sub (skewMs exampleOptions)) = true := by decide +kernel
  rw [assertCurrent]
  exact (if_neg hvalid).trans ((if_neg hiat).trans ((if_neg hexp).trans rfl))

theorem lookup_exampleAnswers {url : String} {text : Except String String}
    (h : (url, text) ∈ exampleAnswers) :
    exampleAnswers.lookup url = some text :=
  lookup_of_mem (by decide +kernel) h

def federationEntity (id : String) : Metadata :=
  [("federation_entity", [("federation_fetch_endpoint", str (id ++ "/fetch"))])]

theorem zJsonWebKeySet_exampleKeys (id : String) :
    zJsonWebKeySet (exampleKeys id) = some (exampleKeys id) := rfl

/-- The configuration of an entity is fetched, and is verified with the keys of the entity. -/
theorem exists_fetched {id : String} (url : String) (others : Members)
    {authorityHints : Option (List String)} {metadata : Option Metadata}
    (hurl : configurationUrl id = .ok url)
    (hanswer : (url, exampleConfiguration id others) ∈ exampleAnswers)
    (hcreated : (exampleConfiguration id others).isOk = true)
    (hread : zEntityStatementClaims exampleSchemas (exampleClaims id id others) =
      some (exampleRead id id authorityHints metadata))
    (hhints : authorityHints ≠ some []) (hjson : (exampleClaims id id others).isJson = true) :
    ∃ jwt, fetchEntityConfiguration exampleOptions id =
      .ok ⟨jwt, exampleRead id id authorityHints metadata⟩ ∧
      verifyJwtSignature exampleOptions.verifyJwtCallback jwt (some (exampleKeys id)) = .ok () := by
  obtain ⟨jwt, hjwt⟩ : ∃ jwt, exampleConfiguration id others = .ok jwt := by
    cases h : exampleConfiguration id others with
    | ok jwt => exact ⟨jwt, rfl⟩
    | error e =>
      rw [h] at hcreated
      cases hcreated
  obtain ⟨validated, hvalidated, hresult⟩ :=
    readEntityConfiguration_created verifies_example (IsJson.of_isJson rfl)
      (IsJson.of_isJson hjson) hjwt
  obtain ⟨_, validated', hvalidated', -, -, hverified⟩ :=
    createEntityConfiguration_eq_ok verifies_example (IsJson.of_isJson rfl)
      (IsJson.of_isJson hjson) hjwt
  obtain rfl := Option.some.inj (hread.symm.trans (Option.filter_eq_some_iff.mp hvalidated).1)
  obtain rfl := Option.some.inj (hvalidated.symm.trans hvalidated')
  have hkind : assertEntityConfigurationClaims (exampleRead id id authorityHints metadata) =
      .ok () := by
    rw [assertEntityConfigurationClaims]
    exact (if_neg fun h => h rfl).trans (if_neg hhints)
  have hfetch : fetcherGet exampleOptions (.entityConfiguration id) url [] = .ok jwt := by
    rw [fetcherGet, if_pos rfl]
    dsimp only [exampleOptions]
    rw [lookup_exampleAnswers hanswer, hjwt]
    rfl
  rw [assertCurrent_exampleRead, hkind] at hresult
  refine ⟨jwt, ?_, hverified _ (zJsonWebKeySet_exampleKeys id)⟩
  rw [fetchEntityConfiguration, hurl, mapError_eq_ok.mpr rfl, ok_bind, hfetch,
    mapError_eq_ok.mpr rfl, ok_bind]
  exact mapError_eq_ok.mpr hresult

/-- The statement of an entity about another one is read with the claims that it was created
from. -/
theorem exists_statement (iss sub : String) : ∃ jwt, exampleStatement iss sub = .ok jwt ∧
    verifyJwtSignature exampleOptions.verifyJwtCallback jwt (some (exampleKeys iss)) = .ok () ∧
    ∀ index subject superior, iss = superior.claims.sub → sub = subject.claims.sub →
      readStatement exampleOptions index subject superior jwt =
        .ok ⟨jwt, exampleRead iss sub none none⟩ := by
  have hread : zEntityStatementClaims exampleSchemas (exampleClaims iss sub []) =
      some (exampleRead iss sub none none) :=
    read_dates rfl
  obtain ⟨jwt, hjwt⟩ : ∃ jwt, exampleStatement iss sub = .ok jwt := by
    have hkid : ¬ kidOf (none.getD (defaultHeader (exampleKey iss))) ≠ kidOf (exampleKey iss) :=
      fun h => h rfl
    rw [exampleStatement, createEntityStatement, if_neg hkid,
      validate_eq_ok.mpr (show zEntityStatementHeader _ = some _ from rfl), ok_bind,
      validate_eq_ok.mpr hread, ok_bind]
    exact ⟨_, rfl⟩
  obtain ⟨validated, hvalidated, hresult, hverified⟩ :=
    readStatement_created verifies_example (IsJson.of_isJson rfl) (IsJson.of_isJson rfl) hjwt
  obtain rfl := Option.some.inj (hread.symm.trans hvalidated)
  refine ⟨jwt, hjwt, hverified _ _ (zJsonWebKeySet_exampleKeys iss) (List.mem_singleton_self _)
    (List.nodup_singleton _), fun index subject superior hiss hsub => ?_⟩
  rw [hresult index subject superior hiss hsub, assertCurrent_exampleRead]
  rfl

/-- A request for a statement about an entity is answered. -/
theorem fetcherGet_statement {occasion : Occasion} {iss sub url jwt : String}
    (hjwt : exampleStatement iss sub = .ok jwt)
    (hurl : addSearchParams (iss ++ "/fetch") [("sub", sub)] = url)
    (hanswer : (url, exampleStatement iss sub) ∈ exampleAnswers) :
    fetcherGet exampleOptions occasion (iss ++ "/fetch") [("sub", sub)] = .ok jwt := by
  rw [fetcherGet, if_neg (List.cons_ne_nil _ _), hurl]
  dsimp only [exampleOptions]
  rw [lookup_exampleAnswers hanswer, hjwt]
  rfl

/-- A statement of a path is fetched within the limit, and then those of the rest of the path. -/
theorem fetchStatements_cons {options : ResolveTrustChainsOptions} {pathIndex index : ℕ}
    {subject superior statement : FetchedStatement} {path statements : List FetchedStatement}
    (endpoint : String) {jwt : String} {requests : Requests}
    (hendpoint : fetchEndpoint superior.claims = some endpoint)
    (hlimit : requests.count + 1 ≤ options.maxRequests)
    (hget : fetcherGet options
      (.statement pathIndex index) endpoint [("sub", subject.claims.sub)] = .ok jwt)
    (hread : readStatement options index subject superior jwt = .ok statement)
    (hrest : ∃ requests', outcome (fetchStatements options pathIndex (index + 1) (superior :: path))
      ⟨requests.count + 1, requests.made ++ [.statement pathIndex index]⟩ =
        (.ok statements, requests')) :
    ∃ requests', outcome
      (fetchStatements options pathIndex index (subject :: superior :: path)) requests =
      (.ok (statement :: statements), requests') := by
  obtain ⟨requests', hrest⟩ := hrest
  refine ⟨requests', ?_⟩
  rw [fetchStatements, hendpoint]
  dsimp only
  rw [outcome_bind, get, outcome_step, if_neg (Nat.not_lt.mpr hlimit), hget, mapError_eq_ok.mpr rfl]
  dsimp only
  rw [outcome_bind, outcome_lift, hread, mapError_eq_ok.mpr rfl]
  dsimp only
  rw [outcome_bind, hrest]
  rfl

def leafClaims : EntityStatementClaims :=
  exampleRead "https://a" "https://a" (some ["https://b", "https://t"]) none

def intermediateClaims : EntityStatementClaims :=
  exampleRead "https://b" "https://b" (some ["https://t"]) (some (federationEntity "https://b"))

def anchorClaims : EntityStatementClaims :=
  exampleRead "https://t" "https://t" none (some (federationEntity "https://t"))

/-- What is fetched for the entities. -/
structure Fetched (leaf intermediate anchor : FetchedStatement) : Prop where
  leaf_claims : leaf.claims = leafClaims
  intermediate_claims : intermediate.claims = intermediateClaims
  anchor_claims : anchor.claims = anchorClaims
  fetchLeaf : fetchEntityConfiguration exampleOptions "https://a" = .ok leaf
  fetchIntermediate : fetchEntityConfiguration exampleOptions "https://b" = .ok intermediate
  fetchAnchor : fetchEntityConfiguration exampleOptions "https://t" = .ok anchor
  signed : verifyJwtSignature exampleOptions.verifyJwtCallback leaf.jwt
    (some (exampleKeys "https://a")) = .ok ()

theorem exists_example : ∃ leaf intermediate anchor, Fetched leaf intermediate anchor := by
  obtain ⟨leaf, hleaf, hsigned⟩ := exists_fetched "https://a/.well-known/openid-federation"
    [exampleHints ["https://b", "https://t"]] (by decide +kernel) (.head _) (by decide +kernel)
    (read_dates rfl) (show some ["https://b", "https://t"] ≠ some [] by decide) rfl
  obtain ⟨intermediate, hintermediate, -⟩ :=
    exists_fetched "https://b/.well-known/openid-federation"
    [exampleHints ["https://t"], exampleEndpoint "https://b"] (by decide +kernel)
      (.tail _ (.head _))
    (by decide +kernel) (read_dates rfl) (show some ["https://t"] ≠ some [] by decide) rfl
  obtain ⟨anchor, hanchor, -⟩ := exists_fetched "https://t/.well-known/openid-federation"
    [exampleEndpoint "https://t"] (by decide +kernel) (.tail _ (.tail _ (.head _)))
      (by decide +kernel)
    (read_dates rfl) (show (none : Option (List String)) ≠ some [] by decide) rfl
  exact ⟨_, _, _, rfl, rfl, rfl, hleaf, hintermediate, hanchor, hsigned⟩

/-- There are two paths, over the intermediate and without it. -/
theorem explore_example {leaf intermediate anchor : FetchedStatement}
    (h : Fetched leaf intermediate anchor) :
    explore (discovery exampleOptions) "https://a" [] =
      ⟨.ok [[leaf, intermediate, anchor], [leaf, anchor]], [], 4⟩ := by
  obtain ⟨hleaf, hintermediate, hanchor, ha, hb, ht, -⟩ := h
  have hgoal : ∀ path, endsAtTrustAnchor exampleOptions (path ++ [anchor]) = true := by
    intro path
    rw [endsAtTrustAnchor, List.getLast?_concat]
    dsimp only
    rw [hanchor]
    rfl
  -- the search ends at the trust anchor
  have hend : ∀ path, path.length ≤ 7 → explore (discovery exampleOptions) "https://t" path =
      ⟨.ok [path ++ [anchor]], [], 1⟩ := by
    intro path hlength
    have hnext : superiorsOf exampleOptions (path ++ [anchor]) = [] := by
      rw [superiorsOf, List.getLast?_concat]
      dsimp only
      rw [hanchor, ite_eq_left_iff]
      exact fun _ => rfl
    rw [explore_of_ok (show (discovery exampleOptions).look "https://t" = .ok anchor from ht),
      next_discovery, hnext, branch, here, goal_discovery, if_pos (hgoal path)]
    rfl
  have hnextLeaf : superiorsOf exampleOptions [leaf] = ["https://b", "https://t"] := by
    rw [superiorsOf, List.getLast?_singleton]
    dsimp only
    simp [collectSuperiors, hleaf, leafClaims, exampleRead, exampleOptions]
  have hnextIntermediate : superiorsOf exampleOptions [leaf, intermediate] = ["https://t"] := by
    rw [superiorsOf]
    simp [collectSuperiors, hleaf, leafClaims, exampleRead, exampleOptions, hintermediate,
      intermediateClaims]
  have hgoalLeaf : endsAtTrustAnchor exampleOptions [leaf] = false := by
    simp [endsAtTrustAnchor, findTrustAnchor, exampleOptions, hleaf, leafClaims, exampleRead]
  have hgoalIntermediate : endsAtTrustAnchor exampleOptions [leaf, intermediate] = false := by
    simp [endsAtTrustAnchor, findTrustAnchor, exampleOptions, hintermediate,
      intermediateClaims, exampleRead]
  have hbranch : explore (discovery exampleOptions) "https://b" [leaf] =
      ⟨.ok [[leaf, intermediate, anchor]], [], 2⟩ := by
    rw [explore_of_ok (show (discovery exampleOptions).look "https://b" = .ok intermediate from hb),
      next_discovery]
    show branch (discovery exampleOptions) [leaf, intermediate] _ = _
    rw [show superiorsOf exampleOptions ([leaf] ++ [intermediate]) =
      ["https://t"] from hnextIntermediate, List.map_singleton, hend _ (by simp), branch, here,
        goal_discovery, hgoalIntermediate]
    rfl
  rw [explore_of_ok (show (discovery exampleOptions).look "https://a" = .ok leaf from ha),
    next_discovery, List.nil_append, hnextLeaf, List.map_cons, List.map_singleton, hbranch,
      hend _ (by simp), branch, here, goal_discovery, hgoalLeaf]
  rfl

/-- The path over the intermediate is validated, after few requests. -/
theorem validatePath_example {leaf intermediate anchor : FetchedStatement}
    (h : Fetched leaf intermediate anchor) (requests : Requests) (hlimit : requests.count ≤ 4) :
    ∃ trustChain requests', trustChain.chain.length = 3 ∧
      outcome (validatePath exampleOptions 0 [leaf, intermediate, anchor]) requests =
        (.ok trustChain, requests') := by
  obtain ⟨hleaf, hintermediate, hanchor, -, -, -, hverified⟩ := h
  obtain ⟨jwt, hjwt, hsigned, hread⟩ := exists_statement "https://b" "https://a"
  obtain ⟨jwt', hjwt', hsigned', hread'⟩ := exists_statement "https://t" "https://b"
  obtain ⟨requests', hstatements⟩ : ∃ requests',
      outcome (fetchStatements exampleOptions 0 0 [leaf, intermediate, anchor]) requests =
      (.ok [⟨jwt, exampleRead "https://b" "https://a" none none⟩,
        ⟨jwt', exampleRead "https://t" "https://b" none none⟩], requests') := by
    refine fetchStatements_cons "https://b/fetch" (by rw [hintermediate]; rfl)
      (by show requests.count + 1 ≤ 64; omega)
      (by
        rw [hleaf]
        exact fetcherGet_statement hjwt (by decide +kernel)
          (.tail _ (.tail _ (.tail _ (.head _)))))
      (hread 0 leaf intermediate (by rw [hintermediate]; rfl) (by rw [hleaf]; rfl)) ?_
    refine fetchStatements_cons "https://t/fetch" (by rw [hanchor]; rfl)
      (by show requests.count + 1 + 1 ≤ 64; omega)
      (by
        rw [hintermediate]
        exact fetcherGet_statement hjwt' (by decide +kernel)
          (.tail _ (.tail _ (.tail _ (.tail _ (.tail _ (.head _)))))))
      (hread' 1 intermediate anchor (by rw [hanchor]; rfl) (by rw [hintermediate]; rfl)) ⟨_, rfl⟩
  have hanchorOk : verifyTrustAnchor exampleOptions anchor = .ok () := by
    rw [verifyTrustAnchor, hanchor]
    rfl
  have hsigners : verifySigners exampleOptions anchor leaf
      [⟨jwt, exampleRead "https://b" "https://a" none none⟩,
        ⟨jwt', exampleRead "https://t" "https://b" none none⟩] = .ok () := by
    have hlast : verifySigner exampleOptions ⟨jwt', exampleRead "https://t" "https://b" none none⟩
        anchor.claims.jwks
        anchor.claims.sub = .ok () := by
      rw [hanchor]
      exact mapError_eq_ok.mpr hsigned'
    exact bind_eq_ok.mpr ⟨(), mapError_eq_ok.mpr hverified,
      bind_eq_ok.mpr ⟨(), mapError_eq_ok.mpr hsigned, hlast⟩⟩
  obtain ⟨trustChain, hlength, hchain⟩ : ∃ trustChain, trustChain.chain.length = 3 ∧
      chainOf [leaf, intermediate, anchor] leaf anchor
        [⟨jwt, exampleRead "https://b" "https://a" none none⟩,
          ⟨jwt', exampleRead "https://t" "https://b" none none⟩] =
        .ok trustChain := by
    rw [chainOf, hleaf]
    exact ⟨_, rfl, rfl⟩
  refine ⟨trustChain, requests', hlength, ?_⟩
  rw [validatePath]
  refine Computation.bind_eq_ok.mpr ⟨(), requests, lift_eq_ok.mpr ⟨hanchorOk, rfl⟩,
    Computation.bind_eq_ok.mpr ⟨_, _, hstatements, ?_⟩⟩
  refine Computation.bind_eq_ok.mpr ⟨(), requests', lift_eq_ok.mpr ⟨?_, rfl⟩,
    lift_eq_ok.mpr ⟨mapError_eq_ok.mpr hchain, rfl⟩⟩
  rw [if_neg (List.cons_ne_nil _ _)]
  exact mapError_eq_ok.mpr hsigners

theorem resolves_example : ∃ resolution made trustChain, Resolves exampleOptions resolution made ∧
    trustChain ∈ resolveTrustChains resolution ∧ trustChain.chain.length = 3 := by
  obtain ⟨leaf, intermediate, anchor, h⟩ := exists_example
  have hstart : Reaches (discovery exampleOptions) "https://a" 0 _ _ := .start
  obtain ⟨n, result, shared, -, hreaches⟩ := hstart.ends
  have hwithin : (explore (discovery exampleOptions) "https://a" []).visits ≤
      (discovery exampleOptions).budget := by
    rw [explore_example h]
    show 4 ≤ 64
    omega
  have hresult := (hreaches.exact hwithin).1
  have hrequests := Nat.le_trans hreaches.reached.knows.requests_le
    (Nat.le_trans (Nat.le_add_right _ _) hreaches.reached.visits_le)
  rw [explore_example h] at hresult hrequests
  subst hresult
  have hresolves : Resolves exampleOptions _ _ := .intro (by decide) hreaches
  obtain ⟨trustChain, requests, hlength, hchain⟩ := validatePath_example h
    { count := shared.requests, made := shared.requested.map .entityConfiguration } hrequests
  refine ⟨_, _, trustChain, hresolves, ?_, hlength⟩
  rw [resolveTrustChains, finish, validatePaths]
  dsimp only
  rw [hchain]
  exact List.mem_cons_self

theorem trustChains_valid_example :
    ∃ resolution made trustChain, Resolves exampleOptions resolution made ∧
    trustChain ∈ resolveTrustChains resolution ∧ trustChain.chain.length = 3 ∧
      Nonempty (ValidTrustChain exampleOptions trustChain) := by
  obtain ⟨resolution, made, trustChain, hresolves, hmem, hlength⟩ := resolves_example
  exact ⟨resolution, made, trustChain, hresolves, hmem, hlength,
    trustChains_valid hresolves trustChain hmem⟩

end IdentityCommon.OpenidFederation
