import IdentityCommon.OpenidFederation.TrustChainValidity

/-!
# The requests of a resolution

How many requests the resolution of trust chains makes, and when the order of the steps of the
search does not matter.

## Main results

- `resolution_bounded` — no resolution makes more requests than it may, or two on one occasion;
  every run of the search ends
- `resolution_order` — within the limit every resolution returns the same trust chains and failures
-/

namespace IdentityCommon.OpenidFederation

open IdentityCommon.Except IdentityCommon.Computation AssocList Ecma Value Common ConcurrentSearch

variable {options : ResolveTrustChainsOptions}

/-! ## Counting -/

/-- The statement of an occasion comes before that of an index of a path. -/
def ComesBefore (pathIndex index : ℕ) : Occasion → Prop
  | .entityConfiguration _ => True
  | .statement p i => p < pathIndex ∨ p = pathIndex ∧ i < index

/-- The requests that were made are counted, within the limit, and come before those that follow. -/
structure Counted (options : ResolveTrustChainsOptions) (pathIndex index : ℕ)
    (requests : Requests) : Prop where
  nodup : requests.made.Nodup
  made_le : requests.made.length ≤ requests.count
  made_le_max : requests.made.length ≤ options.maxRequests
  before : ∀ occasion ∈ requests.made, ComesBefore pathIndex index occasion

theorem Counted.later {pathIndex index pathIndex' index' : ℕ} {requests : Requests}
    (h : Counted options pathIndex index requests)
    (hlater : ∀ occasion, ComesBefore pathIndex index occasion →
      ComesBefore pathIndex' index' occasion) :
    Counted options pathIndex' index' requests :=
  { h with before := fun occasion hmem => hlater occasion (h.before occasion hmem) }

theorem Counted.nextPath {pathIndex index : ℕ} {requests : Requests}
    (h : Counted options pathIndex index requests) :
    Counted options (pathIndex + 1) 0 requests := by
  apply h.later
  intro occasion hbefore
  cases occasion with
  | entityConfiguration id => trivial
  | statement p i =>
    rcases hbefore with hlt | ⟨rfl, -⟩
    · exact .inl (Nat.lt_succ_of_lt hlt)
    · exact .inl (Nat.lt_succ_self p)

/-- A request that is not beyond the limit is made. -/
theorem counted_get {pathIndex index : ℕ} {requests : Requests}
    (h : Counted options pathIndex index requests) (url : String)
    (searchParams : List (String × String)) :
    Counted options pathIndex (index + 1)
      (outcome (get options (.statement pathIndex index) url searchParams) requests).2 := by
  have hnext : Counted options pathIndex (index + 1) requests := by
    apply h.later
    intro occasion hbefore
    cases occasion with
    | entityConfiguration id => trivial
    | statement p i => exact hbefore.imp_right fun hsame => ⟨hsame.1, Nat.lt_succ_of_lt hsame.2⟩
  rw [get, outcome_step]
  split
  case isTrue => exact { hnext with made_le := Nat.le_succ_of_le h.made_le }
  case isFalse hlimit =>
    have hfresh : Occasion.statement pathIndex index ∉ requests.made := by
      intro hmem
      rcases h.before _ hmem with hlt | ⟨-, hlt⟩
      · exact Nat.lt_irrefl _ hlt
      · exact Nat.lt_irrefl _ hlt
    have hle := h.made_le
    refine ⟨h.nodup.append (List.nodup_singleton _) (by simpa using hfresh), ?_, ?_, ?_⟩
    · rw [List.length_append, List.length_singleton]
      exact Nat.succ_le_succ hle
    · rw [List.length_append, List.length_singleton]
      omega
    · exact List.forall_mem_append.mpr ⟨hnext.before,
        List.forall_mem_singleton.mpr (.inr ⟨rfl, Nat.lt_succ_self index⟩)⟩

variable (options) in
theorem count_get (occasion : Occasion) (url : String) (searchParams : List (String × String))
    (requests : Requests) :
    (outcome (get options occasion url searchParams) requests).2.count = requests.count + 1 := by
  rw [get, outcome_step]
  split <;> rfl

/-- What a request for a statement takes from one index to the next holds after the statements of a
path. -/
theorem fetchStatements_state {pathIndex : ℕ} {Q : ℕ → Requests → Prop}
    (hget : ∀ index url searchParams requests, Q index requests →
      Q (index + 1) (outcome
        (get options (.statement pathIndex index) url searchParams) requests).2)
    {index : ℕ} {path : List FetchedStatement} {requests : Requests} (h : Q index requests) :
    ∃ index' ≤ index + (path.length - 1),
    Q index' (outcome (fetchStatements options pathIndex index path) requests).2 := by
  induction path generalizing index requests with
  | nil => exact ⟨index, Nat.le_add_right _ _, h⟩
  | cons subject path ih =>
    cases path with
    | nil => exact ⟨index, Nat.le_add_right _ _, h⟩
    | cons superior path =>
      rw [fetchStatements]
      split
      case h_1 => exact ⟨index, Nat.le_add_right _ _, h⟩
      case h_2 endpoint _ =>
        have hmade := hget index endpoint [("sub", subject.claims.sub)] requests h
        have hlast : index + 1 ≤ index + ((subject :: superior :: path).length - 1) := by simp
        refine state_bind (Q := fun r => ∃ index' ≤ _, Q index' r)
          ⟨index + 1, hlast, hmade⟩ fun jwt r hr => ?_
        rw [hr] at hmade
        refine state_bind (Q := fun r => ∃ index' ≤ _, Q index' r)
          ⟨index + 1, hlast, hmade⟩ fun statement r' hr' => ?_
        obtain rfl := (lift_eq_ok.mp hr').2
        obtain ⟨index', hle, hrest⟩ := ih hmade
        have hle' : index' ≤ index + ((subject :: superior :: path).length - 1) := by
          simp only [List.length_cons, Nat.add_sub_cancel] at hle ⊢
          omega
        refine state_bind (Q := fun r => ∃ index' ≤ _, Q index' r)
          ⟨index', hle', hrest⟩ fun statements r'' hr'' => ?_
        rw [hr''] at hrest
        exact ⟨index', hle', hrest⟩

/-- The checks of a path make no requests besides those for its statements. -/
theorem validatePath_state {pathIndex : ℕ} {Q : ℕ → Requests → Prop}
    (hget : ∀ index url searchParams requests, Q index requests →
      Q (index + 1) (outcome
        (get options (.statement pathIndex index) url searchParams) requests).2)
    {path : List FetchedStatement} {requests : Requests} (h : Q 0 requests) :
    ∃ index' ≤ path.length - 1,
    Q index' (outcome (validatePath options pathIndex path) requests).2 := by
  rw [validatePath]
  split
  case h_2 => exact ⟨0, Nat.zero_le _, h⟩
  case h_1 leafConfiguration trustAnchorConfiguration _ _ =>
    refine state_bind (Q := fun r => ∃ index' ≤ _, Q index' r)
      ⟨0, Nat.zero_le _, h⟩ fun _ r hr => ?_
    obtain rfl := (lift_eq_ok.mp hr).2
    obtain ⟨index', hle, hstatements⟩ : ∃ index' ≤ 0 + (path.length - 1),
        Q index' (outcome (fetchStatements options pathIndex 0 path) r).2 :=
          fetchStatements_state hget h
    rw [Nat.zero_add] at hle
    refine state_bind (Q := fun r => ∃ index' ≤ _, Q index' r)
      ⟨index', hle, hstatements⟩ fun statements r' hr' => ?_
    rw [hr'] at hstatements
    refine state_bind (Q := fun r => ∃ index' ≤ _, Q index' r)
      ⟨index', hle, hstatements⟩ fun _ r'' hr'' => ?_
    obtain rfl := (lift_eq_ok.mp hr'').2
    exact ⟨index', hle, hstatements⟩

theorem counted_validatePath {pathIndex : ℕ} {path : List FetchedStatement} {requests : Requests}
    (h : Counted options pathIndex 0 requests) :
    Counted options (pathIndex + 1) 0
      (outcome (validatePath options pathIndex path) requests).2 := by
  obtain ⟨index, -, hcounted⟩ : ∃ index ≤ path.length - 1,
      Counted options pathIndex index (outcome (validatePath options pathIndex path) requests).2 :=
    validatePath_state (Q := Counted options pathIndex)
      (fun _ url searchParams _ hcounted => counted_get hcounted url searchParams) h
  exact hcounted.nextPath

variable (options) in
theorem count_validatePath_le (pathIndex : ℕ) (path : List FetchedStatement) (requests : Requests) :
    (outcome (validatePath options pathIndex path) requests).2.count ≤ requests.count +
      (path.length - 1) := by
  obtain ⟨index, hle, hcount⟩ : ∃ index ≤ path.length - 1,
      (outcome (validatePath options pathIndex path) requests).2.count ≤ requests.count + index :=
    validatePath_state (Q := fun index r => r.count ≤ requests.count + index)
      (fun index url searchParams r hr => by
      rw [count_get]
      omega) (Nat.le_refl _)
  omega

theorem counted_validatePaths {pathIndex : ℕ} {paths : List (List FetchedStatement)}
    {requests : Requests} (h : Counted options pathIndex 0 requests) :
    Counted options (pathIndex + paths.length) 0
      (validatePaths options pathIndex paths requests).2 := by
  induction paths generalizing pathIndex requests with
  | nil => exact h
  | cons path paths ih =>
    have hpath : Counted options (pathIndex + 1) 0
        (outcome (validatePath options pathIndex path) requests).2 :=
      counted_validatePath h
    have hrest := ih hpath
    rw [validatePaths, List.length_cons, Nat.add_comm paths.length 1, ← Nat.add_assoc]
    rcases hresult : outcome (validatePath options pathIndex path) requests with ⟨result, requests'⟩
    rw [hresult] at hrest
    cases result <;> exact hrest

/-- The requests of a resolution, and the steps of its search. -/
theorem resolution_bounded :
    (∀ n task shared, Reaches (discovery options) options.entityId n task shared →
      n ≤ 3 * options.maxRequests ∧
        ∃ m result shared', n ≤ m ∧
          Reaches (discovery options) options.entityId m (.done result) shared') ∧
    ∀ resolution made, Resolves options resolution made → made.Nodup ∧
    made.length ≤ options.maxRequests := by
  refine ⟨fun n task shared h => ⟨h.length_le, h.ends⟩, fun resolution made h => ?_⟩
  obtain @⟨n, result, shared, -, hreaches⟩ := h
  obtain ⟨hnodup, hle, -⟩ := hreaches.budget
  have hinjective : Function.Injective Occasion.entityConfiguration :=
    fun _ _ h => Occasion.entityConfiguration.inj h
  have hstart : Counted options 0 0
      { count := shared.requests, made := shared.requested.map .entityConfiguration } := by
    refine ⟨hnodup.map hinjective, ?_, ?_, fun occasion hmem => ?_⟩
    · rw [List.length_map]
      exact hreaches.reached.knows.requested_le
    · rw [List.length_map]
      exact hle
    · obtain ⟨id, -, rfl⟩ := List.mem_map.mp hmem
      trivial
  cases result with
  | error cause => exact ⟨hstart.nodup, hstart.made_le_max⟩
  | ok paths =>
    have hcounted : Counted options (0 + paths.length) 0 (finish options (.ok paths) shared).2 :=
      counted_validatePaths hstart
    exact ⟨hcounted.nodup, hcounted.made_le_max⟩

theorem resolution_bounded_example : ∃ resolution made, Resolves exampleOptions resolution made ∧
    resolution.trustChains ≠ [] ∧ made.Nodup ∧ made.length ≤ 64 := by
  obtain ⟨resolution, made, trustChain, hresolves, hmem, -⟩ := resolves_example
  exact ⟨resolution, made, hresolves, List.ne_nil_of_mem hmem,
    resolution_bounded.2 resolution made hresolves⟩

/-! ## The order of the steps -/

theorem result_get {occasion : Occasion} {url : String} {searchParams : List (String × String)}
    {requests : Requests} (h : requests.count + 1 ≤ options.maxRequests) :
    (outcome (get options occasion url searchParams) requests).1 =
      (fetcherGet options occasion url searchParams).mapError .error := by
  rw [get, outcome_step, if_neg (Nat.not_lt.mpr h)]

/-- Within the limit, what is fetched does not depend on the requests that were made before. -/
theorem result_fetchStatements {pathIndex index : ℕ} {path : List FetchedStatement}
    {r r' : Requests} (h : r.count + (path.length - 1) ≤ options.maxRequests)
    (h' : r'.count + (path.length - 1) ≤ options.maxRequests) :
    (outcome (fetchStatements options pathIndex index path) r).1 =
      (outcome (fetchStatements options pathIndex index path) r').1 := by
  induction path generalizing index r r' with
  | nil => rfl
  | cons subject path ih =>
    cases path with
    | nil => rfl
    | cons superior path =>
      simp only [List.length_cons, Nat.add_sub_cancel] at h h' ih
      rw [fetchStatements]
      split
      case h_1 => rfl
      case h_2 endpoint _ =>
        refine outcome_bind_eq ?_ fun jwt s t hs ht => ?_
        · rw [result_get (by omega), result_get (by omega)]
        · have hcount := count_get options
            (.statement pathIndex index) endpoint [("sub", subject.claims.sub)] r
          have hcount' := count_get options
            (.statement pathIndex index) endpoint [("sub", subject.claims.sub)] r'
          rw [hs] at hcount
          rw [ht] at hcount'
          dsimp only at hcount hcount'
          refine outcome_bind_eq rfl fun statement s' t' hs' ht' => ?_
          obtain rfl := (lift_eq_ok.mp hs').2
          obtain rfl := (lift_eq_ok.mp ht').2
          exact outcome_bind_eq (ih (by omega) (by omega)) fun _ _ _ _ _ => rfl

theorem result_validatePath {pathIndex : ℕ} {path : List FetchedStatement} {r r' : Requests}
    (h : r.count + (path.length - 1) ≤ options.maxRequests)
    (h' : r'.count + (path.length - 1) ≤ options.maxRequests) :
    (outcome (validatePath options pathIndex path) r).1 =
      (outcome (validatePath options pathIndex path) r').1 := by
  rw [validatePath]
  split
  case h_2 => rfl
  case h_1 =>
    refine outcome_bind_eq rfl fun _ s t hs ht => ?_
    obtain rfl := (lift_eq_ok.mp hs).2
    obtain rfl := (lift_eq_ok.mp ht).2
    exact outcome_bind_eq (result_fetchStatements h h') fun _ _ _ _ _ =>
      outcome_bind_eq rfl fun _ _ _ _ _ => rfl

/-- The statements that the paths need. -/
def statementCount (paths : List (List FetchedStatement)) : ℕ :=
  (paths.map fun path => path.length - 1).sum

theorem result_validatePaths {pathIndex : ℕ} {paths : List (List FetchedStatement)}
    {r r' : Requests} (h : r.count + statementCount paths ≤ options.maxRequests)
    (h' : r'.count + statementCount paths ≤ options.maxRequests) :
    (validatePaths options pathIndex paths r).1 = (validatePaths options pathIndex paths r').1 := by
  induction paths generalizing pathIndex r r' with
  | nil => rfl
  | cons path paths ih =>
    rw [statementCount, List.map_cons, List.sum_cons, ← statementCount] at h h'
    have hsame : (outcome (validatePath options pathIndex path) r).1 =
        (outcome (validatePath options pathIndex path) r').1 :=
      result_validatePath (by omega) (by omega)
    have hcount := count_validatePath_le options pathIndex path r
    have hcount' := count_validatePath_le options pathIndex path r'
    rw [validatePaths, validatePaths]
    rcases hresult : outcome (validatePath options pathIndex path) r with ⟨result, s⟩
    rcases hresult' : outcome (validatePath options pathIndex path) r' with ⟨result', s'⟩
    rw [hresult] at hcount hsame
    rw [hresult'] at hcount' hsame
    dsimp only at hcount hcount'
    obtain rfl : result = result' := hsame
    have hrest : (validatePaths options (pathIndex + 1) paths s).1 =
        (validatePaths options (pathIndex + 1) paths s').1 :=
      ih (by omega) (by omega)
    dsimp only
    rw [hrest]
    cases result <;> rfl

/-- The visits of the search and the statements of the paths that it finds are within the limit. -/
def WithinLimit (options : ResolveTrustChainsOptions) : Prop :=
  (explore (discovery options) options.entityId []).visits +
    statementCount (fulfilled (explore (discovery options) options.entityId []).result) ≤
      options.maxRequests

/-- Where the limit allows the whole search, the order of its steps does not matter: the trust
chains are the same, and so are the failures up to their order. -/
theorem resolution_order (hwithin : WithinLimit options) {r r' : TrustChainResolution}
    {made made' : List Occasion} (h : Resolves options r made) (h' : Resolves options r' made') :
    r.trustChains = r'.trustChains ∧ r.failures.Perm r'.failures := by
  obtain @⟨n, result, shared, -, hreaches⟩ := h
  obtain @⟨n', result', shared', -, hreaches'⟩ := h'
  have hvisits : (explore (discovery options) options.entityId []).visits ≤
      (discovery options).budget :=
    Nat.le_trans (Nat.le_add_right _ _) hwithin
  obtain ⟨hresult, hfailures⟩ := hreaches.exact hvisits
  obtain ⟨hresult', hfailures'⟩ := hreaches'.exact hvisits
  obtain rfl := hresult.trans hresult'.symm
  have hperm := (hfailures.trans hfailures'.symm).map failureOf
  have hrequests := Nat.le_trans hreaches.reached.knows.requests_le
    (Nat.le_trans (Nat.le_add_right _ _) hreaches.reached.visits_le)
  have hrequests' := Nat.le_trans hreaches'.reached.knows.requests_le
    (Nat.le_trans (Nat.le_add_right _ _) hreaches'.reached.visits_le)
  rw [WithinLimit, ← hresult] at hwithin
  cases result with
  | error cause => exact ⟨rfl, .refl _⟩
  | ok paths =>
    dsimp only [fulfilled] at hwithin
    have hsame : (validatePaths options 0 paths ⟨shared.requests,
        shared.requested.map .entityConfiguration⟩).1 =
        (validatePaths options 0 paths ⟨shared'.requests,
          shared'.requested.map .entityConfiguration⟩).1 :=
      result_validatePaths (Nat.le_trans (Nat.add_le_add_right hrequests _) hwithin)
        (Nat.le_trans (Nat.add_le_add_right hrequests' _) hwithin)
    rw [finish, finish]
    dsimp only
    rw [hsame]
    exact ⟨rfl, hperm.append_right _⟩

theorem withinLimit_example : WithinLimit exampleOptions := by
  obtain ⟨leaf, intermediate, anchor, h⟩ := exists_example
  have hexplore : explore (discovery exampleOptions) exampleOptions.entityId [] = _ :=
    explore_example h
  rw [WithinLimit, hexplore]
  show 4 + (2 + (1 + 0)) ≤ 64
  omega

theorem resolution_order_example : ∃ resolution made, Resolves exampleOptions resolution made ∧
    resolution.trustChains ≠ [] ∧
    ∀ resolution' made', Resolves exampleOptions resolution' made' →
      resolution.trustChains = resolution'.trustChains ∧
      resolution.failures.Perm resolution'.failures := by
  obtain ⟨resolution, made, trustChain, hresolves, hmem, -⟩ := resolves_example
  exact ⟨resolution, made, hresolves, List.ne_nil_of_mem hmem,
    fun resolution' made' h => resolution_order withinLimit_example hresolves h⟩

end IdentityCommon.OpenidFederation
