import IdentityCommon.Jose.Header

/-!
# Critical header parameters

The `crit` header parameter, and whether the payload of a JWS is encoded.

## Main definitions

- `critIssue`, `assertCriticalHeaderParameters` — what is wrong with a name in `crit`
- `isPayloadBase64UrlEncoded` — the `b64` parameter, which has to be in `crit`

## Main results

- `assertCriticalHeaderParameters_eq_ok` — when there is nothing wrong
-/

namespace IdentityCommon.Jose

open Ecma AssocList Value Json Common

structure JoseValidationIssue where
  code : String
  path : List Key
  message : String
  parameter : Option String := none
  understood : List String := []
  deriving DecidableEq

inductive JoseError
  | parse (message : String)
  | validation (message : String) (issues : List JoseValidationIssue)
  | invalidArgument (message : String)
  | notSupported (message : String)
  /-- What a callback throws. -/
  | callback (message : String)
  deriving DecidableEq

def registeredHeaderParameters : List String :=
  ["alg", "jku", "jwk", "kid", "x5u", "x5c", "x5t", "x5t#S256", "typ", "cty", "crit", "enc", "zip",
    "epk", "apu", "apv", "iv", "tag", "p2s", "p2c"]

def hasOwn (object : Value) (key : String) : Bool := (object.child (.name key)).isSome

/-- The texts in an array of texts. -/
def textsOf : Value → List String
  | arr items => items.filterMap fun item => match item with
    | str s => some s
    | _ => none
  | _ => []

def critOf (protectedHeader : Value) : List String := textsOf (protectedHeader.get "crit")

/-- What is wrong with the name at `index`. -/
def critIssue (protectedHeader : Value) (unprotectedHeader : Option Value)
    (understood : List String) (index : ℕ) (name : String) : Option JoseValidationIssue :=
  let path := [.name "crit", .index index]
  if name ∈ registeredHeaderParameters then
    some { code := "invalid_crit", path, parameter := name
           message := "The 'crit' header parameter lists '" ++ name ++
            "', which is a registered header parameter and must not be listed" }
  else if !hasOwn protectedHeader name && !unprotectedHeader.any (hasOwn · name) then
    some { code := "invalid_crit", path, parameter := name
           message := "The 'crit' header parameter lists '" ++ name ++
            "', but the header does not contain that parameter" }
  else if name ∉ understood then
    some { code := "unsupported_crit", path, parameter := name, understood
           message :=
            if name = "b64" then
              "The 'crit' header parameter lists 'b64' (RFC 7797), which is only accepted when " ++
              "'b64' is in 'understoodCriticalParameters'"
            else "The 'crit' header parameter lists '" ++ name ++
              "', which is not understood. A JWS that marks a header parameter as critical can " ++
              "only be accepted when that parameter is processed." }
  else none

def unprotectedCritIssue (unprotectedHeader : Option Value) : List JoseValidationIssue :=
  if unprotectedHeader.any (hasOwn · "crit") then
    [{ code := "invalid_crit", path := [.name "crit"]
       message := "The 'crit' header parameter is present in the unprotected header, where it " ++
         "is not integrity protected and therefore not valid" }]
  else []

def assertCriticalHeaderParameters (protectedHeader : Value) (unprotectedHeader : Option Value)
    (understoodCriticalParameters : List String) : Except JoseError Unit :=
  let issues := unprotectedCritIssue unprotectedHeader ++
    ((critOf protectedHeader).mapIdx
      (critIssue protectedHeader unprotectedHeader understoodCriticalParameters)).filterMap id
  if issues = [] then .ok () else .error (.validation "Invalid JWS crit header parameter" issues)

def isPayloadBase64UrlEncoded (protectedHeader : Value) : Except JoseError Bool :=
  match protectedHeader.get "b64" with
  | undefined => .ok true
  | b64 =>
    if "b64" ∈ critOf protectedHeader then .ok b64.truthy
    else .error (.validation "Invalid JWS crit header parameter"
      [{ code := "invalid_crit", path := [.name "crit"]
         message := "The 'b64' header parameter is used, but is not listed in the 'crit' header " ++
           "parameter, which RFC 7797 requires" }])

/-- Without an unprotected header, `crit` is in order if each name is one of another parameter that
the header has and that is understood. -/
theorem assertCriticalHeaderParameters_eq_ok {protectedHeader : Value} {understood : List String} :
    assertCriticalHeaderParameters protectedHeader none understood = .ok () ↔
      ∀ name ∈ critOf protectedHeader, name ∉ registeredHeaderParameters ∧
      hasOwn protectedHeader name = true ∧
        name ∈ understood := by
  have hissue : ∀ index name, critIssue protectedHeader none understood index name = none ↔
      name ∉ registeredHeaderParameters ∧ hasOwn protectedHeader name = true ∧
      name ∈ understood := by
    intro index name
    rw [critIssue]
    split_ifs with hregistered hown hunderstood
    · simp [hregistered]
    · simp only [Option.any_none, Bool.not_false, Bool.and_true, Bool.not_eq_true'] at hown
      simp [hown]
    · simp only [Option.any_none, Bool.not_false, Bool.and_true, Bool.not_eq_true',
        Bool.not_eq_false] at hown
      exact ⟨fun _ => ⟨hregistered, hown, hunderstood⟩, fun _ => rfl⟩
    · simp [hunderstood]
  have hissues : ((critOf protectedHeader).mapIdx
      (critIssue protectedHeader none understood)).filterMap id = [] ↔
      ∀ name ∈ critOf protectedHeader, name ∉ registeredHeaderParameters ∧
      hasOwn protectedHeader name = true ∧
        name ∈ understood := by
    rw [List.filterMap_eq_nil_iff]
    constructor
    · intro h name hname
      obtain ⟨index, hlt, rfl⟩ := List.mem_iff_getElem.mp hname
      exact (hissue index _).mp (h _ (List.mem_mapIdx.mpr ⟨index, hlt, rfl⟩))
    · intro h issue hmem
      obtain ⟨index, hlt, rfl⟩ := List.mem_mapIdx.mp hmem
      exact (hissue index _).mpr (h _ (List.getElem_mem hlt))
  rw [assertCriticalHeaderParameters, ← hissues]
  simp only [unprotectedCritIssue, Option.any_none, Bool.false_eq_true, if_false, List.nil_append]
  split_ifs with h
  · exact ⟨fun _ => h, fun _ => rfl⟩
  · exact ⟨nofun, fun h' => absurd h' h⟩

end IdentityCommon.Jose
