import IdentityCommon.OpenidFederation.TrustChains

/-!
# Discovery of trust chains

What the search along the authority hints finds in any order of its steps: paths of entity
configurations that are verified, each hinting at the next, without a repetition, up to a trust
anchor.

## Main definitions

- `Current`, `IsConfiguration` — what the checks of a statement and of a configuration say
- `IsPath` — a path from an entity up to a trust anchor

## Main results

- `isPath_of_reaches` — every path that is found is one
-/

namespace IdentityCommon.OpenidFederation

open IdentityCommon.Except IdentityCommon.Computation AssocList Ecma Value Common ConcurrentSearch

variable {options : ResolveTrustChainsOptions}

/-! ## Checks -/

/-- A statement that is valid now, as far as its times and its critical claims go. -/
structure Current (options : ResolveTrustChainsOptions) (claims : EntityStatementClaims) :
    Prop where
  iat : claims.iat.isSome
  exp : claims.exp.isSome
  issued : (options.now.getTime.add (skewMs options)).lt claims.iat.getTime = false
  notExpired : claims.exp.getTime.le (options.now.getTime.sub (skewMs options)) = false
  understood : ∀ claim ∈ claims.crit.getD [], claim ∈ options.understoodCriticalClaims

theorem current_of_assertCurrent {claims : EntityStatementClaims}
    (h : assertCurrent options claims = .ok ()) :
    Current options claims := by
  rw [assertCurrent] at h
  split_ifs at h with hdates hfuture hexpired hcrit
  obtain ⟨hiat, hexp⟩ := not_or.mp hdates
  refine ⟨?_, ?_, Bool.eq_false_iff.mpr hfuture, Bool.eq_false_iff.mpr hexpired,
    fun claim hclaim => ?_⟩
  · simpa [Option.ne_none_iff_isSome] using hiat
  · simpa [Option.ne_none_iff_isSome] using hexp
  · by_contra hnot
    have hmem : claim ∈ notUnderstood options claims :=
      List.mem_filter.mpr ⟨hclaim, by simpa using hnot⟩
    rw [not_not.mp hcrit] at hmem
    cases hmem

/-- A configuration that is verified. -/
structure IsConfiguration (options : ResolveTrustChainsOptions) (configuration : FetchedStatement) :
    Prop where
  parsed : ∃ header, zEntityConfigurationJwt options.schemas configuration.jwt =
    some (header, configuration.claims)
  fetched : ∃ url, configurationUrl configuration.claims.sub = .ok url ∧
    fetcherGet options (.entityConfiguration configuration.claims.sub) url [] =
      .ok configuration.jwt
  aboutItself : configuration.claims.iss = configuration.claims.sub
  signed : SignedBy options.verifyJwtCallback configuration.jwt configuration.claims.jwks
  current : Current options configuration.claims
  kind : onlyInStatements configuration.claims = []

theorem fetchEntityConfiguration_eq_ok {id : String} {configuration : FetchedStatement}
    (h : fetchEntityConfiguration options id = .ok configuration) :
    IsConfiguration options configuration ∧ configuration.claims.sub = id := by
  obtain ⟨url, hurl, hfetch⟩ := bind_eq_ok.mp h
  obtain ⟨jwt, hjwt, hread⟩ := bind_eq_ok.mp hfetch
  obtain ⟨⟨header, claims⟩, hparse, hchecks⟩ := bind_eq_ok.mp (mapError_eq_ok.mp hread)
  rw [validate_eq_ok] at hparse
  dsimp only at hchecks
  by_cases hsub : claims.sub = id
  · rw [if_neg (not_not.mpr hsub)] at hchecks
    subst hsub
    obtain ⟨_, hsigned, hchecks⟩ := bind_eq_ok.mp hchecks
    obtain ⟨_, hcurrent, hchecks⟩ := bind_eq_ok.mp hchecks
    obtain ⟨_, hclaims, hresult⟩ := bind_eq_ok.mp hchecks
    cases hresult
    have hkind : onlyInStatements claims = [] := by
      rw [assertEntityConfigurationClaims] at hclaims
      split_ifs at hclaims with hkind
      exact not_not.mp hkind
    have haboutItself : claims.iss = claims.sub := by
      obtain ⟨parts, -, -, hparsed⟩ := parseJsonWebToken_of_zJsonWebToken hparse
      exact of_decide_eq_true (Option.filter_eq_some_iff.mp hparsed).2
    exact ⟨⟨⟨header, hparse⟩, ⟨url, mapError_eq_ok.mp hurl, mapError_eq_ok.mp hjwt⟩, haboutItself,
      signed_of_verifyJwtSignature_none hparse hsigned,
        current_of_assertCurrent hcurrent, hkind⟩, rfl⟩
  · rw [if_pos hsub] at hchecks
    cases hchecks

theorem look_discovery (id : String) :
    (discovery options).look id = fetchEntityConfiguration options id := rfl

theorem next_discovery (path : List FetchedStatement) :
    (discovery options).next path = superiorsOf options path := rfl

theorem goal_discovery (path : List FetchedStatement) :
    (discovery options).goal path = endsAtTrustAnchor options path := rfl

theorem maxDepth_discovery : (discovery options).maxDepth = options.maxDepth := rfl

/-! ## Superiors -/

theorem collectSuperiors_spec (max : ℕ) (localPath : List FetchedStatement) (hints : List String)
    {superiors : List String} (hn : superiors.Nodup) (hle : superiors.length ≤ max) :
    (collectSuperiors max localPath superiors hints).Nodup ∧
      (collectSuperiors max localPath superiors hints).length ≤ max ∧
      ∀ id ∈ collectSuperiors max localPath superiors hints,
        id ∈ superiors ∨ id ∈ hints ∧ ∀ entry ∈ localPath, entry.claims.sub ≠ id := by
  induction hints generalizing superiors with
  | nil => exact ⟨hn, hle, fun id hid => .inl hid⟩
  | cons hint hints ih =>
    have hlater : ∀ {superiors : List String} {id : String},
        (id ∈ superiors ∨ id ∈ hints ∧ ∀ entry ∈ localPath, entry.claims.sub ≠ id) →
          id ∈ superiors ∨ id ∈ hint :: hints ∧ ∀ entry ∈ localPath, entry.claims.sub ≠ id :=
      fun h => h.imp_right fun hmem => ⟨List.mem_cons_of_mem _ hmem.1, hmem.2⟩
    rw [collectSuperiors]
    by_cases hmax : superiors.length = max
    · rw [if_pos hmax]
      exact ⟨hn, hle, fun id hid => .inl hid⟩
    rw [if_neg hmax]
    by_cases hpath : localPath.any (·.claims.sub = hint) = true
    · rw [if_pos hpath]
      obtain ⟨hn, hle, hmem⟩ := ih hn hle
      exact ⟨hn, hle, fun id hid => hlater (hmem id hid)⟩
    rw [if_neg hpath]
    by_cases hrepeated : hint ∈ superiors
    · rw [if_pos hrepeated]
      obtain ⟨hn, hle, hmem⟩ := ih hn hle
      exact ⟨hn, hle, fun id hid => hlater (hmem id hid)⟩
    · -- the hint is followed
      rw [if_neg hrepeated]
      have hn' : (superiors ++ [hint]).Nodup :=
        hn.append (List.nodup_singleton hint) fun id hid hid' => hrepeated
          (List.mem_singleton.mp hid' ▸ hid)
      obtain ⟨hn, hle, hmem⟩ := ih hn' (by rw [List.length_append, List.length_singleton]; omega)
      refine ⟨hn, hle, fun id hid => ?_⟩
      rcases hmem id hid with hid | hid
      · rcases List.mem_append.mp hid with hid | hid
        · exact .inl hid
        · obtain rfl := List.mem_singleton.mp hid
          refine .inr ⟨List.mem_cons_self, fun entry hentry heq => hpath ?_⟩
          exact List.any_eq_true.mpr ⟨entry, hentry, decide_eq_true heq⟩
      · exact .inr ⟨List.mem_cons_of_mem _ hid.1, hid.2⟩

theorem superiorsOf_spec (localPath : List FetchedStatement) :
    (superiorsOf options localPath).Nodup ∧
    (superiorsOf options localPath).length ≤ options.maxAuthorityHints ∧
      ∀ id ∈ superiorsOf options localPath, (∀ entry ∈ localPath, entry.claims.sub ≠ id) ∧
        ∃ configuration, localPath.getLast? = some configuration ∧
        id ∈ configuration.claims.authorityHints.getD [] := by
  have hnone : ∀ id ∈ ([] : List String), (∀ entry ∈ localPath, entry.claims.sub ≠ id) ∧
      ∃ configuration, localPath.getLast? = some configuration ∧
      id ∈ configuration.claims.authorityHints.getD [] :=
    fun id hid => absurd hid List.not_mem_nil
  rw [superiorsOf]
  split
  case isTrue => exact ⟨List.nodup_nil, Nat.zero_le _, hnone⟩
  case isFalse =>
    split
    case h_1 configuration hlast =>
      obtain ⟨hn, hle, hmem⟩ := collectSuperiors_spec options.maxAuthorityHints localPath
        (configuration.claims.authorityHints.getD []) List.nodup_nil (Nat.zero_le _)
      refine ⟨hn, hle, fun id hid => ?_⟩
      rcases hmem id hid with hid | ⟨hhint, hpath⟩
      · cases hid
      · exact ⟨hpath, configuration, hlast, hhint⟩
    case h_2 => exact ⟨List.nodup_nil, Nat.zero_le _, hnone⟩

/-! ## Paths -/

/-- The first entity names the second as a superior. -/
def Hints (subject superior : FetchedStatement) : Prop :=
  superior.claims.sub ∈ subject.claims.authorityHints.getD []

/-- Configurations that each hint at the next, without a repetition. -/
structure Linked (options : ResolveTrustChainsOptions) (path : List FetchedStatement) : Prop where
  configurations : ∀ configuration ∈ path, IsConfiguration options configuration
  hints : path.IsChain Hints
  nodup : (path.map (·.claims.sub)).Nodup

/-- A path of an entity up to a trust anchor. -/
structure IsPath (options : ResolveTrustChainsOptions) (path : List FetchedStatement) :
    Prop extends Linked options path where
  leaf : path.head?.map (·.claims.sub) = some options.entityId
  anchor : ∃ configuration, path.getLast? = some configuration ∧
    ∃ trustAnchor ∈ options.trustAnchors, trustAnchor.entityId = configuration.claims.sub
  length_le : path.length ≤ options.maxDepth + 1

theorem linked_nil : Linked options [] :=
  ⟨fun _ h => absurd h List.not_mem_nil, .nil, List.nodup_nil⟩

theorem Linked.append {path : List FetchedStatement} (h : Linked options path)
    {configuration : FetchedStatement} (hc : IsConfiguration options configuration)
    (hfresh : ∀ entry ∈ path, entry.claims.sub ≠ configuration.claims.sub)
    (hhint : ∀ last ∈ path.getLast?, Hints last configuration) :
    Linked options (path ++ [configuration]) := by
  refine ⟨List.forall_mem_append.mpr ⟨h.configurations, List.forall_mem_singleton.mpr hc⟩, ?_, ?_⟩
  · apply List.isChain_append.mpr
    refine ⟨h.hints, .singleton _, fun last hlast first hfirst => ?_⟩
    cases hfirst
    exact hhint last hlast
  · rw [List.map_append]
    refine h.nodup.append (List.nodup_singleton _) fun sub hsub hsub' => ?_
    obtain ⟨entry, hentry, rfl⟩ := List.mem_map.mp hsub
    exact hfresh entry hentry (List.mem_singleton.mp hsub')

/-- The search comes to linked paths only. -/
theorem linked_of_leads {id : String} {path p : List FetchedStatement}
    (h : Leads (discovery options) id path p) (hpath : Linked options path)
    (hfresh : ∀ entry ∈ path, entry.claims.sub ≠ id)
    (hhint : ∀ last ∈ path.getLast?, id ∈ last.claims.authorityHints.getD []) :
    Linked options p := by
  induction h with
  | stop hlook =>
    rw [look_discovery] at hlook
    obtain ⟨hc, rfl⟩ := fetchEntityConfiguration_eq_ok hlook
    exact hpath.append hc hfresh hhint
  | @go id id' path p configuration hlook hnext _ ih =>
    rw [look_discovery] at hlook
    rw [next_discovery] at hnext
    obtain ⟨hc, rfl⟩ := fetchEntityConfiguration_eq_ok hlook
    obtain ⟨hfresh', last, hlast, hhint'⟩ := (superiorsOf_spec _).2.2 id' hnext
    refine ih (hpath.append hc hfresh hhint) hfresh' fun last' hlast' => ?_
    rw [Option.mem_def.mp hlast'] at hlast
    exact Option.some.inj hlast ▸ hhint'

theorem isPath_of_leads {p : List FetchedStatement}
    (h : Leads (discovery options) options.entityId [] p)
    (hgoal : endsAtTrustAnchor options p = true) : IsPath options p := by
  obtain ⟨first, rest, hlook, heq⟩ := h.starts
  rw [List.nil_append] at heq
  rw [look_discovery] at hlook
  have hlength := h.length_le (Nat.zero_le _)
  rw [maxDepth_discovery] at hlength
  have hlinked := linked_of_leads h linked_nil (fun _ hentry => absurd hentry List.not_mem_nil)
    fun _ hlast => by cases hlast
  refine { hlinked with leaf := ?_, anchor := ?_, length_le := hlength }
  · rw [heq, List.head?_cons, Option.map_some, (fetchEntityConfiguration_eq_ok hlook).2]
  · rw [endsAtTrustAnchor] at hgoal
    split at hgoal
    case h_1 configuration hlast =>
      obtain ⟨trustAnchor, hanchor⟩ := Option.isSome_iff_exists.mp hgoal
      rw [findTrustAnchor] at hanchor
      have hsame := List.find?_some hanchor
      exact ⟨configuration, hlast, trustAnchor, List.mem_of_find?_eq_some hanchor,
        of_decide_eq_true hsame⟩
    case h_2 => cases hgoal

/-- Every path that is found, in any order, goes up to a trust anchor. -/
theorem isPath_of_reaches {n : ℕ} {paths : List (List FetchedStatement)}
    {shared : Shared String FetchedStatement TrustChainError}
    (h : Reaches (discovery options) options.entityId n (.done (.ok paths)) shared) :
    ∀ path ∈ paths, IsPath options path := by
  intro path hpath
  obtain ⟨hleads, hgoal⟩ := mem_explore.mp (h.sublist.subset hpath)
  rw [goal_discovery] at hgoal
  exact isPath_of_leads hleads hgoal

end IdentityCommon.OpenidFederation
