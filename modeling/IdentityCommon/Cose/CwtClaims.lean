import IdentityCommon.Ecma.Date
import IdentityCommon.Lib.Except
import IdentityCommon.Lib.OrderedMap

/-!
# The claims of a CWT

The checks of the claims of a CWT against what a verifier expects, as `CwtPayload.verifyClaims`
makes them: with time claims that are turned into dates.

## Main definitions

- `Claims` — claims sets
- `VerifyCwtClaimsOptions` — what a verifier expects
- `verifyClaims` — the checks, of which the first that fails is reported

## Main results

- `verifyClaims_eq_ok` — the claims that pass: one condition for each check

## Design notes

The number of a time claim is a finite double: the schema of a claims set accepts no other. An error
is its claim and its kind; the texts, which print dates, are not modelled.
-/

namespace IdentityCommon.Cose

open Ecma IdentityCommon.Except

inductive ClaimKey
  | number (n : ℤ)
  | name (s : String)
  deriving DecidableEq

namespace ClaimKey

def issuer : ClaimKey := .number 1
def subject : ClaimKey := .number 2
def audience : ClaimKey := .number 3
def expirationTime : ClaimKey := .number 4
def notBefore : ClaimKey := .number 5
def issuedAt : ClaimKey := .number 6

end ClaimKey

inductive ClaimValue
  | text (s : String)
  | texts (values : List String)
  | number (x : Finite)
  | other

abbrev Claims := OrderedMap ClaimKey ClaimValue

inductive ClaimFailure
  | missing
  | mismatch
  | inPast
  | inFuture
  deriving DecidableEq

structure CwtClaimVerificationError where
  key : ClaimKey
  failure : ClaimFailure
  deriving DecidableEq

/-- One or several expected values are a list. Where `now` is not given it is the current time. -/
structure VerifyCwtClaimsOptions where
  now : Date
  skewSeconds : Option Double := none
  requiredClaims : List ClaimKey := []
  expectedIssuer : Option (List String) := none
  expectedSubject : Option (List String) := none
  expectedAudience : Option (List String) := none
  checkExpirationTime : Bool := true
  checkNotBefore : Bool := true
  checkIssuedAt : Bool := true

def VerifyCwtClaimsOptions.skewMs (options : VerifyCwtClaimsOptions) : Double :=
  (options.skewSeconds.getD (.finite (.ofInt 30 abs_thirty_le))).mul thousand

/-! ## Single claims -/

def fail {α : Type} (key : ClaimKey) (failure : ClaimFailure) :
    Except CwtClaimVerificationError α := .error { key, failure }

def requireClaims (claims : Claims) (requiredClaims : List ClaimKey) :
    Except CwtClaimVerificationError Unit :=
  match requiredClaims.find? fun key => (claims.get key).isNone with
  | some key => fail key .missing
  | none => .ok ()

def verifyClaimMatches (key : ClaimKey) (claims : Claims) (expected : Option (List String)) :
    Except CwtClaimVerificationError Unit :=
  match expected, claims.get key with
  | none, _ => .ok ()
  | some _, none => fail key .missing
  | some values, some (.text s) => if s ∈ values then .ok () else fail key .mismatch
  | some _, some _ => fail key .mismatch

def audiences : ClaimValue → List String
  | .text s => [s]
  | .texts values => values
  | _ => []

def verifyAudienceMatches (claims : Claims) (expected : Option (List String)) :
    Except CwtClaimVerificationError Unit :=
  match expected, claims.get .audience with
  | none, _ => .ok ()
  | some _, none => fail .audience .missing
  | some values, some audience =>
    if (audiences audience).any (· ∈ values) then .ok () else fail .audience .mismatch

/-- The date of a time claim. -/
def dateClaim (key : ClaimKey) (claims : Claims) : Option Date :=
  match claims.get key with
  | some (.number x) => some (secondsToDate (.finite x))
  | _ => none

/-- `new Date(date.getTime() + skewMs) <= now`. -/
def isInPast (now : Date) (skewMs : Double) (date : Date) : Bool :=
  (timeClip (date.getTime.add skewMs)).le now

/-- `new Date(date.getTime() - skewMs) > now`. -/
def isInFuture (now : Date) (skewMs : Double) (date : Date) : Bool :=
  now.lt (timeClip (date.getTime.sub skewMs))

def verifyClaimNotInPast (claims : Claims) (options : VerifyCwtClaimsOptions) :
    Except CwtClaimVerificationError Unit :=
  if options.checkExpirationTime && (dateClaim .expirationTime claims).any
      (isInPast options.now options.skewMs) then
    fail .expirationTime .inPast
  else .ok ()

def verifyClaimNotInFuture (check : Bool) (key : ClaimKey) (claims : Claims)
    (options : VerifyCwtClaimsOptions) : Except CwtClaimVerificationError Unit :=
  if check && (dateClaim key claims).any (isInFuture options.now options.skewMs) then
    fail key .inFuture
  else .ok ()

/-! ## All claims -/

def verifyClaims (claims : Claims) (options : VerifyCwtClaimsOptions) :
    Except CwtClaimVerificationError Unit := do
  requireClaims claims options.requiredClaims
  verifyClaimMatches .issuer claims options.expectedIssuer
  verifyClaimMatches .subject claims options.expectedSubject
  verifyAudienceMatches claims options.expectedAudience
  verifyClaimNotInPast claims options
  verifyClaimNotInFuture options.checkNotBefore .notBefore claims options
  verifyClaimNotInFuture options.checkIssuedAt .issuedAt claims options

/-! ## Claims that pass -/

/-- A time claim that is looked at, if it is a number, has a date that passes a check. -/
def DateOk (check : Bool) (key : ClaimKey) (claims : Claims) (fails : Date → Bool) : Prop :=
  check = true → ∀ x, claims.get key = some (.number x) → fails (secondsToDate (.finite x)) = false

/-- The claims pass all checks. -/
structure ClaimsOk (claims : Claims) (options : VerifyCwtClaimsOptions) : Prop where
  required : ∀ key ∈ options.requiredClaims, claims.get key ≠ none
  issuer : ∀ values, options.expectedIssuer = some values →
    ∃ s ∈ values, claims.get .issuer = some (.text s)
  subject : ∀ values, options.expectedSubject = some values →
    ∃ s ∈ values, claims.get .subject = some (.text s)
  audience : ∀ values, options.expectedAudience = some values →
    ∃ audience, claims.get .audience = some audience ∧ ∃ s ∈ values, s ∈ audiences audience
  expirationTime : DateOk options.checkExpirationTime .expirationTime claims
    (isInPast options.now options.skewMs)
  notBefore : DateOk options.checkNotBefore .notBefore claims
    (isInFuture options.now options.skewMs)
  issuedAt : DateOk options.checkIssuedAt .issuedAt claims (isInFuture options.now options.skewMs)

theorem requireClaims_eq_ok {claims : Claims} {requiredClaims : List ClaimKey} :
    requireClaims claims requiredClaims = .ok () ↔
      ∀ key ∈ requiredClaims, claims.get key ≠ none := by
  rw [requireClaims]
  split
  · next key hfind =>
    have hnone : claims.get key = none := by simpa using List.find?_some hfind
    exact ⟨nofun, fun h => absurd hnone (h key (List.mem_of_find?_eq_some hfind))⟩
  · next hfind => simpa [Option.isNone_iff_eq_none] using List.find?_eq_none.mp hfind

theorem verifyClaimMatches_eq_ok {key : ClaimKey} {claims : Claims}
    {expected : Option (List String)} :
    verifyClaimMatches key claims expected = .ok () ↔
      ∀ values, expected = some values → ∃ s ∈ values, claims.get key = some (.text s) := by
  unfold verifyClaimMatches fail
  split
  · simp
  · next h => simp [h]
  · next h => split_ifs with hs <;> simp [h, hs]
  · next htext hvalue =>
    simp only [reduceCtorEq, Option.some.injEq, forall_eq', false_iff, not_exists, not_and]
    intro s _ hs
    exact htext s (Option.some.inj (hvalue.symm.trans hs))

theorem verifyAudienceMatches_eq_ok {claims : Claims} {expected : Option (List String)} :
    verifyAudienceMatches claims expected = .ok () ↔
      ∀ values, expected = some values →
        ∃ audience, claims.get .audience = some audience ∧
        ∃ s ∈ values, s ∈ audiences audience := by
  unfold verifyAudienceMatches fail
  split
  · simp
  · next h => simp [h]
  · next values audience h =>
    have hany : (audiences audience).any (· ∈ values) = true ↔
        ∃ s ∈ values, s ∈ audiences audience := by
      simp only [List.any_eq_true, decide_eq_true_eq, and_comm]
    split_ifs with hs
    · simpa [h] using hany.mp hs
    · simpa [h] using mt hany.mpr hs

theorem dateOk_iff {check : Bool} {key : ClaimKey} {claims : Claims} {fails : Date → Bool} :
    (check && (dateClaim key claims).any fails) = false ↔ DateOk check key claims fails := by
  unfold DateOk dateClaim
  cases check with
  | false => simp
  | true =>
    cases hget : claims.get key with
    | none => simp
    | some value => cases value <;> simp

/-- The claims that pass: each check holds. -/
theorem verifyClaims_eq_ok {claims : Claims} {options : VerifyCwtClaimsOptions} :
    verifyClaims claims options = .ok () ↔ ClaimsOk claims options := by
  have hpast : verifyClaimNotInPast claims options = .ok () ↔
      DateOk options.checkExpirationTime .expirationTime claims
        (isInPast options.now options.skewMs) := by
    rw [verifyClaimNotInPast, ← dateOk_iff]
    split_ifs with h <;> simp [h, fail]
  have hfuture : ∀ check key, verifyClaimNotInFuture check key claims options = .ok () ↔
      DateOk check key claims (isInFuture options.now options.skewMs) := by
    intro check key
    rw [verifyClaimNotInFuture, ← dateOk_iff]
    split_ifs with h <;> simp [h, fail]
  rw [verifyClaims]
  constructor
  · intro h
    obtain ⟨_, hrequired, h⟩ := bind_eq_ok.mp h
    obtain ⟨_, hissuer, h⟩ := bind_eq_ok.mp h
    obtain ⟨_, hsubject, h⟩ := bind_eq_ok.mp h
    obtain ⟨_, haudience, h⟩ := bind_eq_ok.mp h
    obtain ⟨_, hexp, h⟩ := bind_eq_ok.mp h
    obtain ⟨_, hnbf, hiat⟩ := bind_eq_ok.mp h
    exact ⟨requireClaims_eq_ok.mp hrequired, verifyClaimMatches_eq_ok.mp hissuer,
      verifyClaimMatches_eq_ok.mp hsubject, verifyAudienceMatches_eq_ok.mp haudience, hpast.mp hexp,
        (hfuture _ _).mp hnbf, (hfuture _ _).mp hiat⟩
  · intro h
    refine bind_eq_ok.mpr ⟨(), requireClaims_eq_ok.mpr h.required, bind_eq_ok.mpr ⟨(), ?_, ?_⟩⟩
    · exact verifyClaimMatches_eq_ok.mpr h.issuer
    · refine bind_eq_ok.mpr ⟨(), verifyClaimMatches_eq_ok.mpr h.subject,
        bind_eq_ok.mpr ⟨(), ?_, ?_⟩⟩
      · exact verifyAudienceMatches_eq_ok.mpr h.audience
      · exact bind_eq_ok.mpr ⟨(), hpast.mpr h.expirationTime,
          bind_eq_ok.mpr ⟨(), (hfuture _ _).mpr h.notBefore, (hfuture _ _).mpr h.issuedAt⟩⟩

end IdentityCommon.Cose
