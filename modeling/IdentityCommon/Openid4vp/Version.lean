import IdentityCommon.Ecma.Value
import IdentityCommon.Lib.AssocList
import Mathlib.Order.Bounds.Basic

/-!
# The version of a request

The drafts of the protocol differ in their parameters: each parameter of an authorization request
requires a version from one on or before one, and the version of the request is inferred from these
requirements.

## Main definitions

- `rules`, `requirements` — what each parameter requires
- `parseAuthorizationRequestVersion` — the version that is inferred
- `Infers` — what the inference is for: the greatest version that the parameters allow
- `StopsInGap` — the requests whose version is computed to be one before the final one

## Main results

- `rules_positive` — a parameter that is added takes no requirement away, unless it is the client id
- `infers_iff` — when the inference does what it is for
-/

namespace IdentityCommon.Openid4vp

open Ecma Value

/-! ## Requests -/

def dcApiResponseModes : List String := ["dc_api", "dc_api.jwt", "w3c_dc_api.jwt", "w3c_dc_api"]

def iaeResponseModes : List String := ["iae_post", "iae_post.jwt"]

/-- Whether a value is one of some texts. -/
def isOneOf (texts : List String) : Value → Bool
  | str s => s ∈ texts
  | _ => false

def isOpenid4vpAuthorizationRequestDcApi (request : Value) : Bool :=
  isOneOf dcApiResponseModes (request.get "response_mode")

def isOpenid4vpAuthorizationRequestIae (request : Value) : Bool :=
  isOneOf iaeResponseModes (request.get "response_mode")

/-- A request, as the schemas of the three kinds of requests have it: with a client id that is not
empty, which a request to the DC API or to the interactive authorization endpoint may leave out. -/
structure AuthorizationRequest where
  members : List (String × Value)
  clientId : (∃ s, s ≠ "" ∧ (obj members).get "client_id" = str s) ∨
    (obj members).get "client_id" = undefined ∧
    (isOpenid4vpAuthorizationRequestDcApi (obj members) = true ∨
      isOpenid4vpAuthorizationRequestIae (obj members) = true)

def AuthorizationRequest.value (request : AuthorizationRequest) : Value := obj request.members

/-! ## Requirements -/

inductive Operator
  | lt
  | ge
  deriving DecidableEq

structure Requirement where
  operator : Operator
  version : ℕ
  deriving DecidableEq

def Requirement.Satisfied (version : ℕ) (requirement : Requirement) : Prop :=
  match requirement.operator with
  | .lt => version < requirement.version
  | .ge => requirement.version ≤ version

/-- Whether there is a value that is not falsy under a name. -/
def has (name : String) (request : Value) : Bool := (request.get name).truthy

/-- `request.client_metadata?.vp_formats_supported?.mso_mdoc?.[name]`. -/
def hasMsoMdoc (name : String) (request : Value) : Bool :=
  ((((request.get "client_metadata").get "vp_formats_supported").get "mso_mdoc").get name).truthy

/-- `request.client_id?.startsWith(prefix)`. -/
def clientIdStartsWith (start : String) (request : Value) : Bool :=
  match request.get "client_id" with
  | str s => start.toList.isPrefixOf s.toList
  | _ => false

def clientIdPrefixes : List String :=
  ["pre-registered", "redirect_uri", "verifier_attestation", "https", "openid_federation", "did",
    "decentralized_identifier", "x509_san_uri", "x509_hash", "x509_san_dns", "origin", "web-origin"]

/-- The text before the first colon, and nothing where there is none. -/
def schemePart (clientId : String) : String :=
  if ':' ∈ clientId.toList then String.ofList (clientId.toList.takeWhile (· ≠ ':')) else ""

/-- Whether the client id has a known prefix that came with the prefixes. -/
def hasClientIdPrefix (request : Value) : Bool :=
  match request.get "client_id" with
  | str s => schemePart s ∈ clientIdPrefixes && schemePart s ≠ "did" && schemePart s ≠ "https"
  | _ => false

def isText (name text : String) (request : Value) : Bool := isOneOf [text] (request.get name)

/-- The conditions on a request, each with what it requires. -/
def rules : List ((Value → Bool) × List Requirement) := [
  -- 1.1 draft
  (isOpenid4vpAuthorizationRequestIae, [⟨.ge, 101⟩]),
  -- 29
  (has "verifier_info", [⟨.ge, 100⟩]),
  (has "verifier_attestations", [⟨.lt, 100⟩]),
  -- 28
  (fun r => hasMsoMdoc "deviceauth_alg_values" r ||
    hasMsoMdoc "issuerauth_alg_values" r, [⟨.ge, 28⟩]),
  (fun r => hasMsoMdoc "issuer_signed_alg_values" r ||
    hasMsoMdoc "device_signed_alg_values" r, [⟨.lt, 28⟩]),
  -- 27
  (fun r => has "vp_formats_supported" (r.get "client_metadata"), [⟨.ge, 27⟩]),
  (fun r => has "vp_formats" (r.get "client_metadata"), [⟨.lt, 27⟩]),
  -- 26
  (fun r => clientIdStartsWith "openid_federation:" r ||
    clientIdStartsWith "decentralized_identifier:" r, [⟨.ge, 26⟩]),
  (clientIdStartsWith "did:", [⟨.lt, 26⟩]),
  (fun r => has "presentation_definition" r || has "presentation_definition_uri" r, [⟨.lt, 26⟩]),
  (has "verifier_attestations", [⟨.ge, 26⟩]),
  -- 25
  (clientIdStartsWith "x509_san_uri:", [⟨.lt, 25⟩]),
  (clientIdStartsWith "x509_hash:", [⟨.ge, 25⟩]),
  (clientIdStartsWith "web-origin:", [⟨.lt, 25⟩]),
  (clientIdStartsWith "origin:", [⟨.ge, 25⟩]),
  -- 23
  (fun r => isOpenid4vpAuthorizationRequestDcApi r &&
    (isText "response_mode" "w3c_dc_api" r || isText "response_mode" "w3c_dc_api.jwt" r),
      [⟨.lt, 23⟩, ⟨.ge, 21⟩]),
  (fun r => isOpenid4vpAuthorizationRequestDcApi r &&
    (isText "response_mode" "dc_api" r || isText "response_mode" "dc_api.jwt" r), [⟨.ge, 23⟩]),
  (fun r => isOpenid4vpAuthorizationRequestDcApi r &&
    (has "transaction_data" r || has "dcql_query" r), [⟨.ge, 23⟩]),
  -- 22
  (has "transaction_data", [⟨.ge, 22⟩]),
  (has "client_id_scheme", [⟨.lt, 22⟩]),
  (hasClientIdPrefix, [⟨.ge, 22⟩]),
  -- 21
  (fun r => !has "client_id" r, [⟨.ge, 21⟩]),
  (has "dcql_query", [⟨.ge, 21⟩]),
  (has "client_metadata_uri", [⟨.lt, 21⟩]),
  (isOpenid4vpAuthorizationRequestDcApi, [⟨.ge, 21⟩]),
  (fun r => has "request_uri_method" r || has "wallet_nonce" r, [⟨.ge, 21⟩]),
  -- 20
  (isText "client_id_scheme" "verifier_attestation", [⟨.ge, 20⟩]),
  -- 19
  (fun r => isText "client_id_scheme" "x509_san_dns" r ||
    isText "client_id_scheme" "x509_san_uri" r, [⟨.ge, 19⟩])]

def requirements (request : Value) : List Requirement :=
  rules.flatMap fun rule => if rule.1 request then rule.2 else []

/-! ## The inference -/

structure VersionError where
  lowestRequiredVersion : ℕ
  highestPossibleVersion : ℕ
  deriving DecidableEq

def VersionError.errorDescription (error : VersionError) : String :=
  "Could not infer openid4vp version from the openid4vp request payload. Based on specification " ++
  "requirements, lowest " ++
  "required version is " ++ toString error.lowestRequiredVersion ++
  " and highest possible version is " ++
  toString error.highestPossibleVersion

def versionsOf (operator : Operator) (requirements : List Requirement) : List ℕ :=
  (requirements.filter (·.operator = operator)).map Requirement.version

def highestPossibleVersion (requirements : List Requirement) : ℕ :=
  match (versionsOf .lt requirements).min? with
  | some least => max (least - 1) 18
  | none => 101

def lowestRequiredVersion (requirements : List Requirement) : ℕ :=
  ((versionsOf .ge requirements).max?).getD 18

def parseAuthorizationRequestVersion (request : Value) : Except VersionError ℕ :=
  let highest := highestPossibleVersion (requirements request)
  let lowest := lowestRequiredVersion (requirements request)
  if lowest > highest then .error ⟨lowest, highest⟩ else .ok highest

/-! ## What the inference is for -/

/-- `Openid4vpVersionNumber`. -/
def versionNumbers : List ℕ := [18, 19, 20, 21, 22, 23, 24, 25, 26, 27, 28, 100, 101]

/-- The versions that the parameters of a request allow. -/
def Allowed (request : Value) : Set ℕ :=
  {version | version ∈ versionNumbers ∧ ∀ requirement ∈ requirements request,
    requirement.Satisfied version}

/-- The greatest version that is allowed is inferred, and there is an error where there is none; a
parameter that is added does not lead to a version that the other parameters do not allow. -/
structure Infers (request : AuthorizationRequest) : Prop where
  greatest : ∀ version, parseAuthorizationRequestVersion request.value = .ok version ↔
    IsGreatest (Allowed request.value) version
  throws : (∃ e, parseAuthorizationRequestVersion request.value = .error e) ↔
    Allowed request.value = ∅
  added : ∀ (key : String) (larger : AuthorizationRequest), request.members.lookup key = none →
    (∀ name ≠ key, larger.members.lookup name = request.members.lookup name) →
    ∀ version, parseAuthorizationRequestVersion larger.value = .ok version →
      ∀ requirement ∈ requirements request.value, requirement.Satisfied version

/-- The requests that require a version before the final one, and none from the final one on or
before an earlier one. -/
def StopsInGap (request : Value) : Prop :=
  ⟨.lt, 100⟩ ∈ requirements request ∧
    ∀ requirement ∈ requirements request, requirement = ⟨.lt, 100⟩ ∨ requirement.operator = .ge ∧
    requirement.version ≤ 28

/-! ## Parameters that are added -/

/-- A request that has the parameters of another one, and maybe more. -/
def Extends (request larger : Value) : Prop :=
  ∀ name, Value.inherited name = undefined → request.get name = undefined ∨
  larger.get name = request.get name

/-- A condition that a parameter cannot break. -/
def Positive (condition : Value → Bool) : Prop :=
  ∀ request larger, Extends request larger → condition request = true → condition larger = true

namespace Positive

/-- A condition on one parameter that is not met where it is missing. -/
theorem reads {name : String} (hname : name ≠ "__proto__" ∧ name ∉ prototypeNames)
    {f : Value → Bool} (hf : f undefined = false) :
    Positive fun request => f (request.get name) := by
  intro request larger h hcondition
  have hinherited : Value.inherited name = undefined := by
    rw [Value.inherited, if_neg hname.1, if_neg hname.2]
  dsimp only at hcondition ⊢
  rcases h name hinherited with hget | hget
  · rw [hget, hf] at hcondition
    cases hcondition
  · rwa [hget]

theorem or {c d : Value → Bool} (hc : Positive c) (hd : Positive d) :
    Positive fun request => c request || d request := by
  intro request larger h hcondition
  rw [Bool.or_eq_true] at hcondition ⊢
  exact hcondition.imp (hc _ _ h) (hd _ _ h)

theorem and {c d : Value → Bool} (hc : Positive c) (hd : Positive d) :
    Positive fun request => c request && d request := by
  intro request larger h hcondition
  rw [Bool.and_eq_true] at hcondition ⊢
  exact hcondition.imp (hc _ _ h) (hd _ _ h)

theorem has {name : String} (hname : name ≠ "__proto__" ∧ name ∉ prototypeNames) :
    Positive (has name) :=
  reads hname rfl

theorem hasMsoMdoc (name : String) : Positive (hasMsoMdoc name) :=
  reads (f := fun v => ((((v.get "vp_formats_supported").get "mso_mdoc").get name).truthy))
    (by decide) rfl

theorem clientMetadata (name : String) :
    Positive fun request => Openid4vp.has name (request.get "client_metadata") :=
  reads (by decide) rfl

theorem clientId {f : String → Bool} : Positive fun request => match request.get "client_id" with
    | str s => f s
    | _ => false :=
  reads (f := fun v => match v with
    | str s => f s
    | _ => false) (by decide) rfl

theorem isText {name text : String} (hname : name ≠ "__proto__" ∧ name ∉ prototypeNames) :
    Positive (isText name text) :=
  reads hname rfl

theorem dcApi : Positive isOpenid4vpAuthorizationRequestDcApi := reads (by decide) rfl

theorem iae : Positive isOpenid4vpAuthorizationRequestIae := reads (by decide) rfl

end Positive

/-- Only the condition that there is no client id may be broken by a parameter. -/
theorem rules_positive :
    ∀ rule ∈ rules, Positive rule.1 ∨ rule = (fun r => !has "client_id" r, [⟨.ge, 21⟩]) := by
  simp only [rules, List.forall_mem_cons]
  refine ⟨.inl .iae, .inl (.has (by decide)), .inl (.has (by decide)),
    .inl (.or (.hasMsoMdoc _) (.hasMsoMdoc _)), .inl (.or (.hasMsoMdoc _) (.hasMsoMdoc _)),
      .inl (.clientMetadata _), .inl (.clientMetadata _),
    .inl (.or .clientId .clientId), .inl .clientId,
      .inl (.or (.has (by decide)) (.has (by decide))),
    .inl (.has (by decide)), .inl .clientId, .inl .clientId, .inl .clientId, .inl .clientId,
    .inl (.and .dcApi (.or (.isText (by decide)) (.isText (by decide)))),
    .inl (.and .dcApi (.or (.isText (by decide)) (.isText (by decide)))),
    .inl (.and .dcApi (.or (.has (by decide)) (.has (by decide)))), .inl (.has (by decide)),
      .inl (.has (by decide)),
    .inl .clientId, .inr trivial, .inl (.has (by decide)), .inl (.has (by decide)), .inl .dcApi,
    .inl (.or (.has (by decide)) (.has (by decide))), .inl (.isText (by decide)),
    .inl (.or (.isText (by decide)) (.isText (by decide))), nofun⟩

theorem mem_requirements {request : Value} {requirement : Requirement} :
    requirement ∈ requirements request ↔ ∃ rule ∈ rules, rule.1 request = true ∧
    requirement ∈ rule.2 := by
  rw [requirements, List.mem_flatMap]
  refine exists_congr fun rule => and_congr_right fun _ => ?_
  split <;> simp_all

/-- A request that extends another one has its requirements, but for the one that there is no client
id. -/
theorem mem_requirements_of_extends {request larger : Value} (h : Extends request larger)
    {requirement : Requirement} (hmem : requirement ∈ requirements request) :
    requirement ∈ requirements larger ∨ has "client_id" request = false ∧
    requirement = ⟨.ge, 21⟩ := by
  obtain ⟨rule, hrule, hcondition, hrequirement⟩ := mem_requirements.mp hmem
  rcases rules_positive rule hrule with hpositive | rfl
  · exact .inl (mem_requirements.mpr ⟨rule, hrule, hpositive _ _ h hcondition, hrequirement⟩)
  · exact .inr ⟨by simpa using hcondition, List.mem_singleton.mp hrequirement⟩

/-! ## Bounds -/

/-- The bounds that are required. -/
def BoundOk (requirement : Requirement) : Prop :=
  match requirement.operator with
  | .lt => 21 ≤ requirement.version ∧ (requirement.version ≤ 28 ∨ requirement.version = 100)
  | .ge => requirement.version ∈ versionNumbers

instance : (requirement : Requirement) → Decidable (BoundOk requirement)
  | ⟨.lt, version⟩ => inferInstanceAs (Decidable (21 ≤ version ∧ (version ≤ 28 ∨ version = 100)))
  | ⟨.ge, version⟩ => inferInstanceAs (Decidable (version ∈ versionNumbers))

theorem boundOk_of_mem {request : Value} {requirement : Requirement}
    (h : requirement ∈ requirements request) :
    BoundOk requirement := by
  have hall : ∀ r ∈ rules.flatMap Prod.snd, BoundOk r := by decide
  obtain ⟨rule, hrule, -, hmem⟩ := mem_requirements.mp h
  exact hall _ (List.mem_flatMap.mpr ⟨rule, hrule, hmem⟩)

theorem mem_versionsOf {operator : Operator} {requirements : List Requirement} {version : ℕ} :
    version ∈ versionsOf operator requirements ↔ ⟨operator, version⟩ ∈ requirements := by
  simp only [versionsOf, List.mem_map, List.mem_filter, decide_eq_true_eq]
  constructor
  · rintro ⟨⟨_, _⟩, ⟨hmem, rfl⟩, rfl⟩
    exact hmem
  · exact fun h => ⟨_, ⟨h, rfl⟩, rfl⟩

/-- The highest version in the bounds: 101 where there is no upper bound, else the one before the
least. -/
theorem le_highest_iff {request : Value} {version : ℕ} (h : version ≤ 101) :
    version ≤ highestPossibleVersion (requirements request) ↔
      ∀ bound, ⟨.lt, bound⟩ ∈ requirements request → version < bound := by
  unfold highestPossibleVersion
  cases hmin : (versionsOf .lt (requirements request)).min? with
  | none =>
    have hnil := List.min?_eq_none_iff.mp hmin
    refine iff_of_true h fun bound hbound => ?_
    rw [← mem_versionsOf, hnil] at hbound
    cases hbound
  | some least =>
    obtain ⟨hmem, hle⟩ := List.min?_eq_some_iff.mp hmin
    have hleast : 21 ≤ least := (boundOk_of_mem (mem_versionsOf.mp hmem)).1
    constructor
    · intro hversion bound hbound
      have := hle bound (mem_versionsOf.mpr hbound)
      dsimp only at hversion
      omega
    · intro hall
      have := hall least (mem_versionsOf.mp hmem)
      dsimp only
      omega

theorem lowest_le_iff {request : Value} {version : ℕ} (h : 18 ≤ version) :
    lowestRequiredVersion (requirements request) ≤ version ↔
      ∀ bound, ⟨.ge, bound⟩ ∈ requirements request → bound ≤ version := by
  unfold lowestRequiredVersion
  cases hmax : (versionsOf .ge (requirements request)).max? with
  | none =>
    have hnil := List.max?_eq_none_iff.mp hmax
    refine iff_of_true h fun bound hbound => ?_
    rw [← mem_versionsOf, hnil] at hbound
    cases hbound
  | some greatest =>
    obtain ⟨hmem, hle⟩ := List.max?_eq_some_iff.mp hmax
    exact ⟨fun hversion bound hbound => (hle bound (mem_versionsOf.mpr hbound)).trans hversion,
      fun hall => hall greatest (mem_versionsOf.mp hmem)⟩

theorem lowest_mem (request : Value) :
    lowestRequiredVersion (requirements request) ∈ versionNumbers := by
  unfold lowestRequiredVersion
  cases hmax : (versionsOf .ge (requirements request)).max? with
  | none => decide
  | some greatest => exact boundOk_of_mem (mem_versionsOf.mp (List.max?_eq_some_iff.mp hmax).1)

theorem bounds_of_mem {version : ℕ} (h : version ∈ versionNumbers) :
    18 ≤ version ∧ version ≤ 101 := by
  revert h
  simp only [versionNumbers, List.mem_cons, List.not_mem_nil, or_false]
  omega

theorem satisfied_iff {request : Value} {version : ℕ} (h : 18 ≤ version ∧ version ≤ 101) :
    (∀ requirement ∈ requirements request, requirement.Satisfied version) ↔
      lowestRequiredVersion (requirements request) ≤ version ∧
      version ≤ highestPossibleVersion (requirements request) := by
  rw [lowest_le_iff h.1, le_highest_iff h.2]
  constructor
  · exact fun hall => ⟨fun bound hbound => hall _ hbound, fun bound hbound => hall _ hbound⟩
  · rintro ⟨hge, hlt⟩ ⟨operator, bound⟩ hmem
    cases operator with
    | lt => exact hlt bound hmem
    | ge => exact hge bound hmem

/-- The versions that are allowed are those from the lowest to the highest one. -/
theorem mem_allowed_iff {request : Value} {version : ℕ} :
    version ∈ Allowed request ↔ version ∈ versionNumbers ∧
    lowestRequiredVersion (requirements request) ≤ version ∧
    version ≤ highestPossibleVersion (requirements request) :=
  and_congr_right fun h => satisfied_iff (bounds_of_mem h)

theorem parse_eq_ok {request : Value} {version : ℕ} :
    parseAuthorizationRequestVersion request = .ok version ↔
      lowestRequiredVersion (requirements request) ≤ highestPossibleVersion (requirements request) ∧
        version = highestPossibleVersion (requirements request) := by
  unfold parseAuthorizationRequestVersion
  dsimp only
  split_ifs with h
  · exact ⟨nofun, fun h' => absurd h'.1 (Nat.not_le.mpr h)⟩
  · exact ⟨fun h' => ⟨Nat.not_lt.mp h, (Except.ok.inj h').symm⟩, fun h' => congrArg _ h'.2.symm⟩

/-- The highest version is one of the list, unless the least upper bound is the final version. -/
theorem highest_cases (request : Value) :
    highestPossibleVersion (requirements request) ∈ versionNumbers ∨
    highestPossibleVersion (requirements request) = 99 ∧ ⟨.lt, 100⟩ ∈ requirements request ∧
      ∀ bound, ⟨.lt, bound⟩ ∈ requirements request → bound = 100 := by
  have hle : ∀ version ≤ 101, version ≤ highestPossibleVersion (requirements request) ↔
      ∀ bound, ⟨.lt, bound⟩ ∈ requirements request → version < bound :=
        fun version h => le_highest_iff h
  unfold highestPossibleVersion at hle ⊢
  cases hmin : (versionsOf .lt (requirements request)).min? with
  | none => exact .inl (by decide)
  | some least =>
    obtain ⟨hmem, hleast⟩ := List.min?_eq_some_iff.mp hmin
    obtain ⟨hge, hbound⟩ := boundOk_of_mem (mem_versionsOf.mp hmem)
    dsimp only at hge hbound ⊢
    rcases hbound with hbound | rfl
    · left
      simp only [versionNumbers, List.mem_cons, List.not_mem_nil, or_false]
      omega
    · refine .inr ⟨rfl, mem_versionsOf.mp hmem, fun bound hmem' => ?_⟩
      have := hleast bound (mem_versionsOf.mpr hmem')
      have hok := (boundOk_of_mem hmem').2
      dsimp only at hok
      omega

theorem stopsInGap_iff (request : Value) : StopsInGap request ↔
    highestPossibleVersion (requirements request) = 99 ∧
      lowestRequiredVersion (requirements request) ≤ highestPossibleVersion
        (requirements request) := by
  have hlow : ∀ version, 18 ≤ version →
      (lowestRequiredVersion (requirements request) ≤ version ↔ _) :=
    fun version h => lowest_le_iff h
  constructor
  · rintro ⟨hlt, hall⟩
    have hle : 99 ≤ highestPossibleVersion (requirements request) :=
        (le_highest_iff (by decide)).mpr fun bound hbound => by
      rcases hall _ hbound with h | ⟨h, -⟩
      · cases h
        decide
      · cases h
    have hnot : ¬ 100 ≤ highestPossibleVersion (requirements request) := fun h =>
      lt_irrefl 100 ((le_highest_iff (by decide)).mp h 100 hlt)
    have hlowest : lowestRequiredVersion (requirements request) ≤ 28 :=
        (hlow 28 (by decide)).mpr fun bound hbound => by
      rcases hall _ hbound with h | ⟨-, h⟩
      · cases h
      · exact h
    omega
  · rintro ⟨hhighest, hle⟩
    obtain hmem | ⟨-, hlt, hbounds⟩ := highest_cases request
    · rw [hhighest] at hmem
      exact absurd hmem (by decide)
    have hlowest := lowest_mem request
    -- no version of the list is between 28 and 100
    have hle28 : lowestRequiredVersion (requirements request) ≤ 28 := by
      simp only [versionNumbers, List.mem_cons, List.not_mem_nil, or_false] at hlowest
      omega
    refine ⟨hlt, ?_⟩
    rintro ⟨operator, bound⟩ hmem
    cases operator with
    | lt => exact .inl (by rw [hbounds bound hmem])
    | ge => exact .inr ⟨rfl, (hlow 28 (by decide)).mp hle28 bound hmem⟩

/-! ## The inference -/

theorem allowed_eq_empty_iff (request : Value) : Allowed request = ∅ ↔
    highestPossibleVersion (requirements request) < lowestRequiredVersion
      (requirements request) := by
  rw [← Set.not_nonempty_iff_eq_empty, ← Nat.not_le]
  refine not_congr ⟨?_, fun h => ⟨_, mem_allowed_iff.mpr ⟨lowest_mem request, le_rfl, h⟩⟩⟩
  rintro ⟨version, hversion⟩
  obtain ⟨-, hlow, hhigh⟩ := mem_allowed_iff.mp hversion
  exact hlow.trans hhigh

theorem exists_error_iff (request : Value) :
    (∃ e, parseAuthorizationRequestVersion request = .error e) ↔ Allowed request = ∅ := by
  rw [allowed_eq_empty_iff]
  unfold parseAuthorizationRequestVersion
  dsimp only
  split_ifs with h
  · exact iff_of_true ⟨_, rfl⟩ h
  · exact iff_of_false (fun ⟨_, he⟩ => by cases he) h

/-- Where the inference does not stop between 28 and 100, it gives the greatest version that is
allowed. -/
theorem parse_eq_ok_iff_isGreatest {request : Value} (h : ¬ StopsInGap request) (version : ℕ) :
    parseAuthorizationRequestVersion request = .ok version ↔
      IsGreatest (Allowed request) version := by
  have hhighest : lowestRequiredVersion (requirements request) ≤ highestPossibleVersion
      (requirements request) →
      highestPossibleVersion (requirements request) ∈ versionNumbers := fun hle =>
    (highest_cases request).resolve_right fun hgap => h ((stopsInGap_iff request).mpr ⟨hgap.1, hle⟩)
  rw [parse_eq_ok]
  constructor
  · rintro ⟨hle, rfl⟩
    exact ⟨mem_allowed_iff.mpr ⟨hhighest hle, hle, le_rfl⟩, fun v hv => (mem_allowed_iff.mp hv).2.2⟩
  · rintro ⟨hmem, hupper⟩
    obtain ⟨-, hlow, hhigh⟩ := mem_allowed_iff.mp hmem
    have hle := hlow.trans hhigh
    exact ⟨hle, le_antisymm hhigh (hupper (mem_allowed_iff.mpr ⟨hhighest hle, hle, le_rfl⟩))⟩

/-- What is inferred is in the bounds, also where it is no version of the list. -/
theorem satisfied_of_parse {request : Value} {version : ℕ}
    (h : parseAuthorizationRequestVersion request = .ok version) :
    ∀ requirement ∈ requirements request, requirement.Satisfied version := by
  obtain ⟨hle, rfl⟩ := parse_eq_ok.mp h
  have hlowest := (bounds_of_mem (lowest_mem request)).1
  refine (satisfied_iff ⟨hlowest.trans hle, ?_⟩).mpr ⟨hle, le_rfl⟩
  rcases highest_cases request with hmem | ⟨hhighest, -⟩
  · exact (bounds_of_mem hmem).2
  · rw [hhighest]
    decide

theorem extends_of_lookup {members larger : List (String × Value)} {key : String}
    (hkey : members.lookup key = none)
    (hother : ∀ name ≠ key, larger.lookup name = members.lookup name) :
    Extends (obj members) (obj larger) := by
  intro name hname
  by_cases hn : name = key
  · rw [hn] at hname ⊢
    exact .inl (by rw [get_obj_of_none hkey, hname])
  · exact .inr (by rw [Value.get, Value.get, hother name hn])

/-- A request without a client id is one to the DC API or to the interactive authorization endpoint,
and requires as much for that. -/
theorem satisfied_of_added {request larger : AuthorizationRequest}
    (h : Extends request.value larger.value) {version : ℕ}
    (hparse : parseAuthorizationRequestVersion larger.value = .ok version) :
    ∀ requirement ∈ requirements request.value, requirement.Satisfied version := by
  have hsatisfied := satisfied_of_parse hparse
  intro requirement hmem
  rcases mem_requirements_of_extends h hmem with hmem | ⟨hclientId, rfl⟩
  · exact hsatisfied requirement hmem
  have hmode : isOpenid4vpAuthorizationRequestDcApi request.value = true ∨
      isOpenid4vpAuthorizationRequestIae request.value = true := by
    rcases request.clientId with ⟨s, hne, hget⟩ | ⟨-, hmode⟩
    · rw [has, AuthorizationRequest.value, hget] at hclientId
      simp [truthy, hne] at hclientId
    · exact hmode
  rcases hmode with hmode | hmode
  · have hrequired : ⟨.ge, 21⟩ ∈ requirements larger.value :=
      mem_requirements.mpr ⟨(isOpenid4vpAuthorizationRequestDcApi, [⟨.ge, 21⟩]), by simp [rules],
        Positive.dcApi _ _ h hmode, List.mem_singleton_self _⟩
    exact hsatisfied _ hrequired
  · have hrequired : ⟨.ge, 101⟩ ∈ requirements larger.value :=
      mem_requirements.mpr ⟨(isOpenid4vpAuthorizationRequestIae, [⟨.ge, 101⟩]), by simp [rules],
        Positive.iae _ _ h hmode, List.mem_singleton_self _⟩
    exact le_trans (by decide) (hsatisfied _ hrequired)

/-- The inference does what it is for exactly where it does not stop between 28 and 100. -/
theorem infers_iff (request : AuthorizationRequest) :
    Infers request ↔ ¬ StopsInGap request.value := by
  constructor
  · intro h hgap
    obtain ⟨hhighest, hle⟩ := (stopsInGap_iff _).mp hgap
    have hgreatest := (h.greatest 99).mp (parse_eq_ok.mpr ⟨hle, hhighest.symm⟩)
    exact absurd hgreatest.1.1 (by decide)
  · intro hgap
    exact ⟨parse_eq_ok_iff_isGreatest hgap, exists_error_iff _,
        fun key larger hkey hother version hparse =>
      satisfied_of_added (extends_of_lookup hkey hother) hparse⟩

/-- A request with attestations of the verifier, which are from before the final version. -/
def attestedRequest : AuthorizationRequest where
  members := [("response_type", str "vp_token"), ("client_id", str "verifier"),
    ("nonce", str "nonce"), ("verifier_attestations", arr [])]
  clientId := .inl ⟨"verifier", by decide, rfl⟩

/-- The version of a request with attestations is inferred to be 99, which is none. -/
theorem attestedRequest_version : parseAuthorizationRequestVersion attestedRequest.value = .ok 99 ∧
    ¬ Infers attestedRequest := by
  have hparse : parseAuthorizationRequestVersion attestedRequest.value = .ok 99 := by decide +kernel
  exact ⟨hparse, fun h => absurd ((h.greatest 99).mp hparse).1.1 (by decide)⟩

end IdentityCommon.Openid4vp
