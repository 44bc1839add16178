import IdentityCommon.Ecma.Date
import IdentityCommon.Jose.CriticalHeaders

/-!
# The claims of a JWT

The checks of the claims of a JWT against what a verifier expects: that claims are there, that they
have the expected values, and that the token is within its validity window.

## Main definitions

- `VerifyJwtClaimsOptions` — what a verifier expects
- `claimIssues` — what is wrong with the claims
- `verifyJwtClaims` — the checks

## Main results

- `verifyJwtClaims_eq_ok` — the claims that pass: one condition for each check

## Design notes

An issue is its code and its claim. The texts of issues, which print dates, are not modelled.
-/

namespace IdentityCommon.Jose

open Ecma Value

inductive ClaimIssueCode
  | claimMissing
  | claimValueMismatch
  | expired
  | notYetValid
  | invalidType
  deriving DecidableEq

structure ClaimIssue where
  code : ClaimIssueCode
  claim : String
  deriving DecidableEq

inductive JwtClaimsError
  | invalidArgument (option : String)
  | validation (issues : List ClaimIssue)
  deriving DecidableEq

/-- One or several expected values are a list. Where `now` is not given it is the current time. -/
structure VerifyJwtClaimsOptions where
  now : Date
  skewSeconds : Option Double := none
  requiredClaims : List String := []
  expectedIssuer : Option (List String) := none
  expectedSubject : Option (List String) := none
  expectedAudience : Option (List String) := none
  expectedNonce : Option String := none
  checkExpirationTime : Bool := true
  checkNotBefore : Bool := true
  checkIssuedAt : Bool := true
  maxAgeSeconds : Option Double := none

namespace VerifyJwtClaimsOptions

def skew (options : VerifyJwtClaimsOptions) : Double :=
  options.skewSeconds.getD (.finite (.ofInt 30 abs_thirty_le))

def nowSeconds (options : VerifyJwtClaimsOptions) : Double := options.now.getTime.div thousand

end VerifyJwtClaimsOptions

def isNonNegativeFiniteNumber : Double → Bool
  | .finite x => 0 ≤ x.value
  | _ => false

@[simp] theorem isNonNegativeFiniteNumber_finite (x : Finite) :
    isNonNegativeFiniteNumber (.finite x) = true ↔ 0 ≤ x.value := by
  simp [isNonNegativeFiniteNumber]

/-! ## Single claims -/

/-- A required claim is absent. A claim is reported once, however many checks need it. -/
def addClaimMissing (claim : String) (issues : List ClaimIssue) : List ClaimIssue :=
  if ⟨.claimMissing, claim⟩ ∈ issues then issues else issues ++ [⟨.claimMissing, claim⟩]

def requireClaims (payload : Value) (requiredClaims : List String) (issues : List ClaimIssue) :
    List ClaimIssue :=
  requiredClaims.foldl (fun issues claim => if hasOwn payload claim then issues
    else addClaimMissing claim issues) issues

def verifyClaimMatches (claim : String) (payload : Value) (expected : Option (List String))
    (issues : List ClaimIssue) : List ClaimIssue :=
  match expected, payload.get claim with
  | none, _ => issues
  | some _, undefined => addClaimMissing claim issues
  | some values, str s => if s ∈ values then issues else issues ++ [⟨.claimValueMismatch, claim⟩]
  | some _, _ => issues ++ [⟨.claimValueMismatch, claim⟩]

def asArray : Value → List Value
  | arr items => items
  | value => [value]

def isOneOf (values : List String) : Value → Bool
  | str s => s ∈ values
  | _ => false

def verifyAudienceMatches (payload : Value) (expected : Option (List String))
    (issues : List ClaimIssue) : List ClaimIssue :=
  match expected, payload.get "aud" with
  | none, _ => issues
  | some _, undefined => addClaimMissing "aud" issues
  | some values, audience =>
    if (asArray audience).any (isOneOf values) then issues
    else issues ++ [⟨.claimValueMismatch, "aud"⟩]

/-- The number that a time claim holds, where it is looked at. -/
def numericDate (check : Bool) (claim : String) (payload : Value) : Option Double :=
  match check, payload.get claim with
  | true, num n => some (Double.ofNumber n)
  | _, _ => none

/-- A claim that is there and is not a finite number is an issue, rather than one that is not
checked. -/
def verifyNumericDate (check : Bool) (claim : String) (payload : Value) (issues : List ClaimIssue) :
    List ClaimIssue :=
  match check, payload.get claim with
  | false, _ | true, undefined => issues
  | true, num n => if (Double.ofNumber n).isFinite then issues
      else issues ++ [⟨.invalidType, claim⟩]
  | true, _ => issues ++ [⟨.invalidType, claim⟩]

def isExpired (options : VerifyJwtClaimsOptions) (exp : Double) : Bool :=
  (exp.add options.skew).le options.nowSeconds

def isInFuture (options : VerifyJwtClaimsOptions) (seconds : Double) : Bool :=
  options.nowSeconds.lt (seconds.sub options.skew)

def isTooOld (options : VerifyJwtClaimsOptions) (maxAgeSeconds iat : Double) : Bool :=
  ((iat.add maxAgeSeconds).add options.skew).lt options.nowSeconds

/-- The issues with one more, where a finite number is there that fails a check. -/
def addIf (fails : Double → Bool) (issue : ClaimIssue) (value : Option Double)
    (issues : List ClaimIssue) : List ClaimIssue :=
  if value.any fun value => value.isFinite && fails value then issues ++ [issue] else issues

def verifyMaxAge (payload : Value) (options : VerifyJwtClaimsOptions) (issuedAt : Option Double)
    (issues : List ClaimIssue) : List ClaimIssue :=
  match options.maxAgeSeconds, payload.get "iat" with
  | none, _ => issues
  | some _, undefined => addClaimMissing "iat" issues
  | some maxAgeSeconds, _ =>
      addIf (isTooOld options maxAgeSeconds) ⟨.expired, "iat"⟩ issuedAt issues

/-! ## All claims -/

/-- What is wrong with the claims, in the order of the checks. -/
def claimIssues (payload : Value) (options : VerifyJwtClaimsOptions) : List ClaimIssue :=
  let checkIat := options.checkIssuedAt || options.maxAgeSeconds.isSome
  let expirationTime := numericDate options.checkExpirationTime "exp" payload
  let notBefore := numericDate options.checkNotBefore "nbf" payload
  let issuedAt := numericDate checkIat "iat" payload
  let issues := requireClaims payload options.requiredClaims []
  let issues := verifyClaimMatches "iss" payload options.expectedIssuer issues
  let issues := verifyClaimMatches "sub" payload options.expectedSubject issues
  let issues := verifyClaimMatches "nonce" payload (options.expectedNonce.map ([·])) issues
  let issues := verifyAudienceMatches payload options.expectedAudience issues
  let issues := verifyNumericDate options.checkExpirationTime "exp" payload issues
  let issues := verifyNumericDate options.checkNotBefore "nbf" payload issues
  let issues := verifyNumericDate checkIat "iat" payload issues
  let issues := addIf (isExpired options) ⟨.expired, "exp"⟩ expirationTime issues
  let issues := addIf (isInFuture options) ⟨.notYetValid, "nbf"⟩ notBefore issues
  let issues := addIf (fun iat => options.checkIssuedAt && isInFuture options iat)
    ⟨.notYetValid, "iat"⟩ issuedAt issues
  verifyMaxAge payload options issuedAt issues

def verifyJwtClaims (payload : Value) (options : VerifyJwtClaimsOptions) :
    Except JwtClaimsError Unit :=
  if options.now.isNone then .error (.invalidArgument "now")
  else if !isNonNegativeFiniteNumber options.skew then .error (.invalidArgument "skewSeconds")
  else if !options.maxAgeSeconds.all isNonNegativeFiniteNumber then
    .error (.invalidArgument "maxAgeSeconds")
  else match claimIssues payload options with
    | [] => .ok ()
    | issues => .error (.validation issues)

/-! ## Claims that pass -/

/-- A claim has one of the expected values, if any are expected. -/
def ClaimMatches (claim : String) (payload : Value) (expected : Option (List String)) : Prop :=
  ∀ values, expected = some values → ∃ s ∈ values, payload.get claim = str s

def AudienceMatches (payload : Value) (expected : Option (List String)) : Prop :=
  ∀ values, expected = some values → ∃ s ∈ values, str s ∈ asArray (payload.get "aud")

/-- A claim that is looked at is absent, or a number that passes a check. -/
def NumericDateOk (check : Bool) (claim : String) (payload : Value)
    (fails : Double → Bool) : Prop :=
  check = true → payload.get claim = undefined ∨
    ∃ n, payload.get claim = num n ∧ (Double.ofNumber n).isFinite = true ∧
    fails (Double.ofNumber n) = false

/-- A claim that a maximum age needs is there, and is not older than that. -/
def MaxAgeOk (payload : Value) (options : VerifyJwtClaimsOptions) : Prop :=
  ∀ maxAgeSeconds, options.maxAgeSeconds = some maxAgeSeconds →
    ∃ n, payload.get "iat" = num n ∧ (Double.ofNumber n).isFinite = true ∧
      isTooOld options maxAgeSeconds (Double.ofNumber n) = false

/-- The claims pass all checks. -/
structure ClaimsOk (payload : Value) (options : VerifyJwtClaimsOptions) : Prop where
  required : ∀ claim ∈ options.requiredClaims, hasOwn payload claim = true
  issuer : ClaimMatches "iss" payload options.expectedIssuer
  subject : ClaimMatches "sub" payload options.expectedSubject
  nonce : ClaimMatches "nonce" payload (options.expectedNonce.map ([·]))
  audience : AudienceMatches payload options.expectedAudience
  expirationTime : NumericDateOk options.checkExpirationTime "exp" payload (isExpired options)
  notBefore : NumericDateOk options.checkNotBefore "nbf" payload (isInFuture options)
  issuedAt : NumericDateOk options.checkIssuedAt "iat" payload (isInFuture options)
  maxAge : MaxAgeOk payload options

/-- The options can be used to verify claims. -/
structure VerifyJwtClaimsOptions.Usable (options : VerifyJwtClaimsOptions) : Prop where
  now : options.now.isSome = true
  skew : isNonNegativeFiniteNumber options.skew = true
  maxAge : ∀ maxAgeSeconds, options.maxAgeSeconds = some maxAgeSeconds →
    isNonNegativeFiniteNumber maxAgeSeconds = true

theorem addClaimMissing_ne_nil (claim : String) (issues : List ClaimIssue) :
    addClaimMissing claim issues ≠ [] := by
  rw [addClaimMissing]
  split_ifs with h
  · exact List.ne_nil_of_mem h
  · simp

theorem requireClaims_eq_nil {payload : Value} {requiredClaims : List String}
    {issues : List ClaimIssue} :
    requireClaims payload requiredClaims issues = [] ↔
      issues = [] ∧ ∀ claim ∈ requiredClaims, hasOwn payload claim = true := by
  induction requiredClaims generalizing issues with
  | nil => simp [requireClaims]
  | cons claim requiredClaims ih =>
    rw [requireClaims, List.foldl_cons, ← requireClaims, ih, List.forall_mem_cons]
    split_ifs with h
    · simp [h]
    · simp [h, addClaimMissing_ne_nil]

theorem verifyClaimMatches_eq_nil {claim : String} {payload : Value}
    {expected : Option (List String)} {issues : List ClaimIssue} :
    verifyClaimMatches claim payload expected issues = [] ↔ issues = [] ∧
    ClaimMatches claim payload expected := by
  unfold verifyClaimMatches ClaimMatches
  split
  · simp
  · next h => simp [h, addClaimMissing_ne_nil]
  · next h =>
    split_ifs with hs
    · simp [h, hs]
    · simp [h, hs]
  · next hundefined hstr =>
    simp only [List.append_eq_nil_iff, List.cons_ne_nil, and_false, Option.some.injEq,
      false_iff, not_and]
    rintro - hmatch
    obtain ⟨s, _, hs⟩ := hmatch _ rfl
    exact hstr s hs

theorem any_isOneOf {values : List String} {items : List Value} :
    items.any (isOneOf values) = true ↔ ∃ s ∈ values, str s ∈ items := by
  rw [List.any_eq_true]
  constructor
  · rintro ⟨item, hitem, h⟩
    unfold isOneOf at h
    split at h
    · exact ⟨_, of_decide_eq_true h, hitem⟩
    · cases h
  · rintro ⟨s, hs, hitem⟩
    exact ⟨_, hitem, decide_eq_true hs⟩

theorem verifyAudienceMatches_eq_nil {payload : Value} {expected : Option (List String)}
    {issues : List ClaimIssue} :
    verifyAudienceMatches payload expected issues = [] ↔ issues = [] ∧
    AudienceMatches payload expected := by
  unfold verifyAudienceMatches AudienceMatches
  split
  · simp
  · next h => simp [h, addClaimMissing_ne_nil, asArray]
  · split_ifs with hany
    · simp only [Option.some.injEq, forall_eq', any_isOneOf.mp hany, and_true]
    · simp only [Option.some.injEq, forall_eq', ← any_isOneOf, hany]
      simp

theorem verifyNumericDate_eq_nil {check : Bool} {claim : String} {payload : Value}
    {issues : List ClaimIssue} :
    verifyNumericDate check claim payload issues = [] ↔
      issues = [] ∧ NumericDateOk check claim payload fun _ => false := by
  unfold verifyNumericDate NumericDateOk
  cases check with
  | false => simp
  | true =>
    cases hget : payload.get claim with
    | arr items => simp
    | obj members => simp
    | leaf l =>
      cases l with
      | num n => cases hfinite : (Double.ofNumber n).isFinite <;> simp [hfinite]
      | _ => simp

theorem addIf_eq_nil {fails : Double → Bool} {issue : ClaimIssue} {value : Option Double}
    {issues : List ClaimIssue} :
    addIf fails issue value issues = [] ↔
      issues = [] ∧ ∀ x, value = some x → x.isFinite = true → fails x = false := by
  rw [addIf]
  cases value with
  | none => simp
  | some x => cases hfinite : x.isFinite <;> cases hfails : fails x <;> simp [hfinite, hfails]

/-- The claim that passes a check is a number, and the number passes. -/
theorem numericDateOk_iff {check : Bool} {claim : String} {payload : Value}
    {fails : Double → Bool} :
    NumericDateOk check claim payload fails ↔ NumericDateOk check claim payload (fun _ => false) ∧
      ∀ x, numericDate check claim payload = some x → x.isFinite = true → fails x = false := by
  unfold NumericDateOk numericDate
  cases check with
  | false => simp
  | true =>
    cases hget : payload.get claim with
    | arr items => simp
    | obj members => simp
    | leaf l =>
      cases l with
      | num n => cases hfinite : (Double.ofNumber n).isFinite <;> simp [hfinite]
      | _ => simp

theorem verifyMaxAge_eq_nil {payload : Value} {options : VerifyJwtClaimsOptions}
    {issuedAt : Option Double} {issues : List ClaimIssue} :
    verifyMaxAge payload options issuedAt issues = [] ↔ issues = [] ∧
      ∀ maxAgeSeconds, options.maxAgeSeconds = some maxAgeSeconds → payload.get "iat" ≠ undefined ∧
        ∀ x, issuedAt = some x → x.isFinite = true → isTooOld options maxAgeSeconds x = false := by
  unfold verifyMaxAge
  split
  · next hmax => simp [hmax]
  · next hmax hiat => simp [hmax, hiat, addClaimMissing_ne_nil]
  · next hmax hiat =>
    have hne : payload.get "iat" ≠ undefined := hiat
    rw [addIf_eq_nil, hmax]
    simp only [Option.some.injEq, forall_eq', and_congr_right_iff]
    exact fun _ => ⟨fun h => ⟨hne, h⟩, And.right⟩

/-- The checks of `iat`, which is read for one of two reasons. -/
theorem issuedAt_iff {payload : Value} {options : VerifyJwtClaimsOptions} :
    (NumericDateOk (options.checkIssuedAt || options.maxAgeSeconds.isSome) "iat" payload
      (fun _ => false) ∧
      (∀ x, numericDate (options.checkIssuedAt || options.maxAgeSeconds.isSome) "iat"
        payload = some x →
        x.isFinite = true → (options.checkIssuedAt && isInFuture options x) = false) ∧
      ∀ maxAgeSeconds, options.maxAgeSeconds = some maxAgeSeconds → payload.get "iat" ≠ undefined ∧
        ∀ x, numericDate (options.checkIssuedAt || options.maxAgeSeconds.isSome) "iat"
          payload = some x →
          x.isFinite = true → isTooOld options maxAgeSeconds x = false) ↔
      NumericDateOk options.checkIssuedAt "iat" payload (isInFuture options) ∧
      MaxAgeOk payload options := by
  unfold NumericDateOk numericDate MaxAgeOk
  cases options.checkIssuedAt <;> cases options.maxAgeSeconds <;>
    cases hget : payload.get "iat" with
  | arr items => simp
  | obj members => simp
  | leaf l =>
    cases l with
    | num n => cases hfinite : (Double.ofNumber n).isFinite <;> simp [hfinite]
    | _ => simp

/-- There is nothing wrong with the claims that pass all checks. -/
theorem claimIssues_eq_nil {payload : Value} {options : VerifyJwtClaimsOptions} :
    claimIssues payload options = [] ↔ ClaimsOk payload options := by
  rw [claimIssues]
  simp only [verifyMaxAge_eq_nil, addIf_eq_nil, verifyNumericDate_eq_nil,
    verifyAudienceMatches_eq_nil, verifyClaimMatches_eq_nil, requireClaims_eq_nil, true_and]
  constructor
  · rintro ⟨⟨⟨⟨⟨⟨⟨⟨⟨⟨⟨hrequired, hiss⟩, hsub⟩, hnonce⟩, haud⟩, hexp⟩, hnbf⟩, hiat⟩, hexpired⟩,
      hfuture⟩, hissued⟩, hmax⟩
    obtain ⟨hissued, hmax⟩ := issuedAt_iff.mp ⟨hiat, hissued, hmax⟩
    exact ⟨hrequired, hiss, hsub, hnonce, haud, numericDateOk_iff.mpr ⟨hexp, hexpired⟩,
      numericDateOk_iff.mpr ⟨hnbf, hfuture⟩, hissued, hmax⟩
  · intro h
    obtain ⟨hiat, hissued, hmax⟩ := issuedAt_iff.mpr ⟨h.issuedAt, h.maxAge⟩
    obtain ⟨hexp, hexpired⟩ := numericDateOk_iff.mp h.expirationTime
    obtain ⟨hnbf, hfuture⟩ := numericDateOk_iff.mp h.notBefore
    exact ⟨⟨⟨⟨⟨⟨⟨⟨⟨⟨⟨h.required, h.issuer⟩, h.subject⟩, h.nonce⟩, h.audience⟩, hexp⟩, hnbf⟩, hiat⟩,
      hexpired⟩, hfuture⟩, hissued⟩, hmax⟩

/-- The claims that pass: the options can be used, and each check holds. -/
theorem verifyJwtClaims_eq_ok {payload : Value} {options : VerifyJwtClaimsOptions} :
    verifyJwtClaims payload options = .ok () ↔ options.Usable ∧ ClaimsOk payload options := by
  have husable : options.Usable ↔ options.now.isNone = false ∧
      isNonNegativeFiniteNumber options.skew = true ∧
      options.maxAgeSeconds.all isNonNegativeFiniteNumber = true := by
    constructor
    · rintro ⟨hnow, hskew, hmax⟩
      refine ⟨by rw [Option.isNone_eq_false_iff, hnow], hskew, ?_⟩
      cases hm : options.maxAgeSeconds with
      | none => rfl
      | some maxAgeSeconds => exact hmax maxAgeSeconds hm
    · rintro ⟨hnow, hskew, hmax⟩
      refine ⟨Option.isNone_eq_false_iff.mp hnow, hskew, fun maxAgeSeconds hm => ?_⟩
      rw [hm] at hmax
      exact hmax
  rw [verifyJwtClaims, ← claimIssues_eq_nil, husable]
  split_ifs with hnow hskew hmax
  · simp [hnow]
  · simp only [Bool.not_eq_true'] at hskew
    simp [hskew]
  · simp only [Bool.not_eq_true'] at hmax
    simp [hmax]
  · simp only [Bool.not_eq_true', Bool.not_eq_false] at hnow hskew hmax
    rw [Bool.not_eq_true] at hnow
    simp only [hnow, hskew, hmax, true_and]
    split
    · next h => simp only [h]
    · next hne => exact ⟨nofun, fun h => absurd h hne⟩

end IdentityCommon.Jose
