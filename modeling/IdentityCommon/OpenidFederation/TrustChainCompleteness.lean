import IdentityCommon.OpenidFederation.TrustChainRequests

/-!
# Completeness of the resolution

What the resolution does not lose: within its limits, every path of the hints from the leaf up to a
trust anchor is found, and is returned as a trust chain or reported as a failure, whatever the order
of the steps.

## Main results

- `mem_found_iff` — the paths that the search finds are those from the leaf up to a trust anchor
- `resolution_complete` — each of them is returned or reported, with what its validation gives
-/

namespace IdentityCommon.OpenidFederation

open IdentityCommon.Except IdentityCommon.Computation AssocList Ecma Value Common ConcurrentSearch

variable {options : ResolveTrustChainsOptions}

/-! ## Following hints -/

theorem subset_collectSuperiors {max : ℕ} {localPath : List FetchedStatement}
    (superiors hints : List String) :
    superiors ⊆ collectSuperiors max localPath superiors hints := by
  induction hints generalizing superiors with
  | nil => exact List.Subset.refl _
  | cons hint hints ih =>
    rw [collectSuperiors]
    split_ifs
    · exact List.Subset.refl _
    · exact ih superiors
    · exact ih superiors
    · exact List.Subset.trans (List.subset_append_left _ _) (ih _)

/-- With room for all the hints, none that is not on the path is left out. -/
theorem mem_collectSuperiors {max : ℕ} {localPath : List FetchedStatement}
    {superiors hints : List String} (hroom : superiors.length + hints.length ≤ max) {id : String}
    (hid : id ∈ hints) (hfresh : ∀ entry ∈ localPath, entry.claims.sub ≠ id) :
    id ∈ collectSuperiors max localPath superiors hints := by
  induction hints generalizing superiors with
  | nil => cases hid
  | cons hint hints ih =>
    rw [List.length_cons] at hroom
    have hnotMax : superiors.length ≠ max := by omega
    rw [collectSuperiors, if_neg hnotMax]
    by_cases hhint : hint = id
    · subst hhint
      have hnotPath : ¬ localPath.any (·.claims.sub = hint) = true := by
        intro hany
        obtain ⟨entry, hentry, heq⟩ := List.any_eq_true.mp hany
        exact hfresh entry hentry (of_decide_eq_true heq)
      rw [if_neg hnotPath]
      split_ifs with hrepeated
      · exact subset_collectSuperiors _ _ hrepeated
      · exact subset_collectSuperiors _ _ (List.mem_append_right _ (List.mem_singleton_self _))
    · have hlater : id ∈ hints := (List.mem_cons.mp hid).resolve_left (Ne.symm hhint)
      split_ifs
      · exact ih (by omega) hlater
      · exact ih (by omega) hlater
      · apply ih _ hlater
        rw [List.length_append, List.length_singleton]
        omega

/-- A hint of the last entity of a path is followed, if the path may get longer. -/
theorem mem_superiorsOf {path : List FetchedStatement} {configuration : FetchedStatement}
    (hlength : (path ++ [configuration]).length ≤ options.maxDepth)
    (hfew : (configuration.claims.authorityHints.getD []).length ≤ options.maxAuthorityHints)
    {id : String} (hid : id ∈ configuration.claims.authorityHints.getD [])
    (hfresh : ∀ entry ∈ path ++ [configuration], entry.claims.sub ≠ id) :
    id ∈ superiorsOf options (path ++ [configuration]) := by
  rw [superiorsOf, if_neg (Nat.not_lt.mpr hlength), List.getLast?_concat]
  exact mem_collectSuperiors (by simpa using hfew) hid hfresh

/-! ## Paths -/

/-- The configurations of a path are what the entities answer, and name no more superiors than are
followed. -/
structure Answered (options : ResolveTrustChainsOptions) (path : List FetchedStatement) : Prop where
  fetched : ∀ configuration ∈ path, fetchEntityConfiguration options configuration.claims.sub =
    .ok configuration
  fewHints : ∀ configuration ∈ path, (configuration.claims.authorityHints.getD []).length ≤
    options.maxAuthorityHints

/-- The search comes to every path of hints. -/
theorem leads_of_hints {before rest : List FetchedStatement} {first : FetchedStatement}
    (hanswered : Answered options (first :: rest)) (hhints : (first :: rest).IsChain Hints)
    (hnodup : ((before ++ first :: rest).map (·.claims.sub)).Nodup)
    (hlength : (before ++ first :: rest).length ≤ options.maxDepth + 1) :
    Leads (discovery options) first.claims.sub before (before ++ first :: rest) := by
  induction rest generalizing before first with
  | nil =>
    apply Leads.stop
    rw [look_discovery]
    exact hanswered.fetched first List.mem_cons_self
  | cons second rest ih =>
    have hreorder : before ++ first :: second :: rest = (before ++ [first]) ++ second :: rest := by
      rw [List.append_assoc, List.singleton_append]
    rw [hreorder] at hnodup hlength ⊢
    have hlook : (discovery options).look first.claims.sub = .ok first := by
      rw [look_discovery]
      exact hanswered.fetched first List.mem_cons_self
    refine .go hlook ?_ (ih ⟨fun c hc => hanswered.fetched c (List.mem_cons_of_mem _ hc),
      fun c hc => hanswered.fewHints c (List.mem_cons_of_mem _ hc)⟩ hhints.tail hnodup hlength)
    rw [next_discovery]
    apply mem_superiorsOf
    · rw [List.length_append, List.length_cons] at hlength
      omega
    · exact hanswered.fewHints first List.mem_cons_self
    · exact hhints.rel
    · -- the second entity is not among those before it
      rw [List.map_append] at hnodup
      intro entry hentry heq
      have hmem := List.mem_map_of_mem (f := fun c : FetchedStatement => c.claims.sub) hentry
      exact List.disjoint_of_nodup_append hnodup hmem (heq ▸ List.mem_cons_self)

/-- The paths that the search comes to are made of what the entities answer. -/
theorem fetched_of_leads {id : String} {path p : List FetchedStatement}
    (h : Leads (discovery options) id path p)
    (hpath : ∀ configuration ∈ path, fetchEntityConfiguration options configuration.claims.sub =
      .ok configuration) :
    ∀ configuration ∈ p, fetchEntityConfiguration options configuration.claims.sub =
      .ok configuration := by
  have hstep : ∀ {id : String} {path : List FetchedStatement} {a : FetchedStatement},
      (discovery options).look id = .ok a →
      (∀ configuration ∈ path, fetchEntityConfiguration options configuration.claims.sub =
        .ok configuration) →
      ∀ configuration ∈ path ++ [a], fetchEntityConfiguration options configuration.claims.sub =
        .ok configuration := by
    intro id path a hlook hpath
    rw [look_discovery] at hlook
    refine List.forall_mem_append.mpr ⟨hpath, List.forall_mem_singleton.mpr ?_⟩
    rw [(fetchEntityConfiguration_eq_ok hlook).2]
    exact hlook
  induction h with
  | stop hlook => exact hstep hlook hpath
  | go hlook _ _ ih => exact ih (hstep hlook hpath)

/-- The paths that the search finds are those from the leaf up to a trust anchor that the entities
answer. -/
theorem mem_found_iff {path : List FetchedStatement}
    (hfew : ∀ configuration ∈ path,
      (configuration.claims.authorityHints.getD []).length ≤ options.maxAuthorityHints) :
    path ∈ fulfilled (explore (discovery options) options.entityId []).result ↔
      IsPath options path ∧ Answered options path := by
  rw [mem_explore, goal_discovery]
  constructor
  · rintro ⟨hleads, hgoal⟩
    exact ⟨isPath_of_leads hleads hgoal, fetched_of_leads hleads fun _ h =>
      absurd h List.not_mem_nil, hfew⟩
  · rintro ⟨hpath, hanswered⟩
    cases path with
    | nil => exact absurd hpath.leaf (Option.some_ne_none _).symm
    | cons first rest =>
      have hleaf : first.claims.sub = options.entityId := Option.some.inj hpath.leaf
      obtain ⟨configuration, hlast, trustAnchor, hmem, heq⟩ := hpath.anchor
      refine ⟨hleaf ▸ leads_of_hints hanswered hpath.hints hpath.nodup hpath.length_le, ?_⟩
      rw [endsAtTrustAnchor, hlast]
      exact List.find?_isSome.mpr ⟨trustAnchor, hmem, decide_eq_true heq⟩

/-! ## Validation -/

/-- What is returned of each path is what its validation gives on its own, while the requests are
within the limit. -/
theorem reported_validatePaths {pathIndex : ℕ} {paths : List (List FetchedStatement)}
    {requests : Requests} (hwithin : requests.count + statementCount paths ≤ options.maxRequests)
    {path : List FetchedStatement} (hpath : path ∈ paths) : ∃ i,
      (∀ trustChain, (outcome (validatePath options i path) ⟨0, []⟩).1 = .ok trustChain →
        trustChain ∈ (validatePaths options pathIndex paths requests).1.trustChains) ∧
      ∀ cause, (outcome (validatePath options i path) ⟨0, []⟩).1 = .error cause →
        ⟨path.map (·.claims.sub), cause⟩ ∈
        (validatePaths options pathIndex paths requests).1.failures := by
  induction paths generalizing pathIndex requests with
  | nil => cases hpath
  | cons head paths ih =>
    rw [statementCount, List.map_cons, List.sum_cons, ← statementCount] at hwithin
    have hcount := count_validatePath_le options pathIndex head requests
    have halone : (outcome (validatePath options pathIndex head) ⟨0, []⟩).1 =
        (outcome (validatePath options pathIndex head) requests).1 :=
          result_validatePath (by dsimp only; omega) (by omega)
    rw [validatePaths]
    rcases hresult : outcome (validatePath options pathIndex head) requests with ⟨result, requests'⟩
    rw [hresult] at hcount halone
    dsimp only at hcount
    rcases List.mem_cons.mp hpath with rfl | hlater
    · refine ⟨pathIndex, fun trustChain h => ?_, fun cause h => ?_⟩
      · rw [halone] at h
        obtain rfl : result = .ok trustChain := h
        exact List.mem_cons_self
      · rw [halone] at h
        obtain rfl : result = .error cause := h
        exact List.mem_cons_self
    · have hwithin' : requests'.count + statementCount paths ≤ options.maxRequests := by omega
      obtain ⟨i, hchains, hfailures⟩ := @ih (pathIndex + 1) requests' hwithin' hlater
      refine ⟨i, fun trustChain h => ?_, fun cause h => ?_⟩
      · cases result with
        | ok first => exact List.mem_cons_of_mem _ (hchains trustChain h)
        | error first => exact hchains trustChain h
      · cases result with
        | ok first => exact hfailures cause h
        | error first => exact List.mem_cons_of_mem _ (hfailures cause h)

/-- Where the limit allows the whole search, no path is lost: every path of hints from the leaf up
to a trust anchor, of entities that answer, is returned as the trust chain that its validation
gives, or reported with the reason why that fails. -/
theorem resolution_complete (hwithin : WithinLimit options) {resolution : TrustChainResolution}
    {made : List Occasion} (h : Resolves options resolution made) {path : List FetchedStatement}
    (hpath : IsPath options path) (hanswered : Answered options path) : ∃ i,
      (∀ trustChain, (outcome (validatePath options i path) ⟨0, []⟩).1 = .ok trustChain →
        trustChain ∈ resolveTrustChains resolution) ∧
      ∀ cause, (outcome (validatePath options i path) ⟨0, []⟩).1 = .error cause →
        ⟨path.map (·.claims.sub), cause⟩ ∈ resolution.failures := by
  obtain @⟨n, result, shared, -, hreaches⟩ := h
  have hvisits : (explore (discovery options) options.entityId []).visits ≤
      (discovery options).budget :=
    Nat.le_trans (Nat.le_add_right _ _) hwithin
  have hfound := (mem_found_iff hanswered.fewHints).mpr ⟨hpath, hanswered⟩
  have hrequests := Nat.le_trans hreaches.reached.knows.requests_le
    (Nat.le_trans (Nat.le_add_right _ _) hreaches.reached.visits_le)
  rw [WithinLimit] at hwithin
  rw [← (hreaches.exact hvisits).1] at hfound hwithin
  cases result with
  | error cause => cases hfound
  | ok paths =>
    dsimp only [fulfilled] at hfound hwithin
    have hcount : shared.requests + statementCount paths ≤ options.maxRequests :=
      Nat.le_trans (Nat.add_le_add_right hrequests _) hwithin
    obtain ⟨i, hchains, hfailures⟩ := @reported_validatePaths options 0 paths
      ⟨shared.requests, shared.requested.map .entityConfiguration⟩ hcount path hfound
    exact ⟨i, hchains, fun cause hcause => List.mem_append_right _ (hfailures cause hcause)⟩

theorem resolution_complete_example :
    ∃ resolution made path, Resolves exampleOptions resolution made ∧
    path.length = 3 ∧ IsPath exampleOptions path ∧ Answered exampleOptions path ∧ ∃ i,
      (∀ trustChain, (outcome (validatePath exampleOptions i path) ⟨0, []⟩).1 = .ok trustChain →
        trustChain ∈ resolveTrustChains resolution) ∧
      ∀ cause, (outcome (validatePath exampleOptions i path) ⟨0, []⟩).1 = .error cause →
        ⟨path.map (·.claims.sub), cause⟩ ∈ resolution.failures := by
  obtain ⟨resolution, made, -, hresolves, -⟩ := resolves_example
  obtain ⟨leaf, intermediate, anchor, h⟩ := exists_example
  have hfew : ∀ entry ∈ [leaf, intermediate, anchor],
      (entry.claims.authorityHints.getD []).length ≤ exampleOptions.maxAuthorityHints := by
    rw [List.forall_mem_cons, List.forall_mem_cons, List.forall_mem_singleton, h.leaf_claims,
      h.intermediate_claims, h.anchor_claims]
    decide
  have hfound : [leaf, intermediate, anchor] ∈
      fulfilled (explore (discovery exampleOptions) exampleOptions.entityId []).result := by
    rw [show explore (discovery exampleOptions) exampleOptions.entityId [] =
      _ from explore_example h]
    exact List.mem_cons_self
  obtain ⟨hpath, hanswered⟩ := (mem_found_iff hfew).mp hfound
  exact ⟨resolution, made, _, hresolves, rfl, hpath, hanswered,
    resolution_complete withinLimit_example hresolves hpath hanswered⟩

end IdentityCommon.OpenidFederation
