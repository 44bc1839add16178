import IdentityCommon.Common.LooseObjects

/-!
# Claims of draft 14 as claims descriptions

A credential configuration of draft 14 describes its claims in an object with an object for each
claim. They are converted to the list of claims descriptions of later versions, each with the path
of its claim.

## Main definitions

- `zClaimsDescriptionDraft14`, `zClaimsDraft14` — the schemas of the description of a claim and of a
  claims object
- `claimsObjectToClaimsArray` — the conversion
- `nestedClaim`, `claimAt` — the claims of an object, by their names and by the paths to them

## Main results

- `mem_processClaim` — the descriptions that come from a claim
- `nodup_processClaim` — their paths are distinct
-/

namespace IdentityCommon.Openid4vci

open Ecma AssocList Value Common

/-- The members of a claim that describe it. -/
def descriptionNames : List String := ["mandatory", "value_type", "display"]

def zClaimDisplay : Schema := looseObject [("name", optional zString), ("locale", optional zString)]

def claimsDescriptionShape : List (String × Schema) :=
  [("mandatory", optional zBoolean), ("value_type", optional zString),
    ("display", optional (array zClaimDisplay))]

/-- `zCredentialConfigurationSupportedClaimsDescriptionDraft14`. -/
def zClaimsDescriptionDraft14 : Schema := looseObject claimsDescriptionShape

mutual

/-- `zCredentialConfigurationSupportedClaimsDraft14`. -/
def zClaimsDraft14 : Schema
  | obj members => (parseClaims members).map obj
  | _ => none

/-- The members of a claims object. An own member `__proto__` is left out, and not validated. -/
def parseClaims : List (String × Value) → Option (List (String × Value))
  | [] => some []
  | (key, value) :: members =>
    if key = "__proto__" then parseClaims members
    else do
      let claim ← (zClaimsDescriptionDraft14 value).or (zClaimsDraft14 value)
      let claims ← parseClaims members
      some ((key, claim) :: claims)

end

/-- `IssuerMetadataClaimsDescription`. -/
structure ClaimsDescription where
  path : List String
  mandatory : Option Bool
  display : Option (List Value)

/-- The description of a claim; the type of its value is not part of it. -/
def claimDescription (path : List String) (claimValue : Value) : ClaimsDescription where
  path := path
  mandatory := match claimValue.get "mandatory" with
    | .leaf (.bool b) => some b
    | _ => none
  display := match claimValue.get "display" with
    | arr items => some items
    | _ => none

/-- `'mandatory' in value || 'value_type' in value || 'display' in value`. No inherited member has
one of these names. -/
def hasClaimProperties : Value → Bool
  | obj members => descriptionNames.any (· ∈ keys members)
  | _ => false

mutual

/-- The descriptions that come from one member of a claims object. -/
def processClaim (key : String) (parentPath : List String) : Value → List ClaimsDescription
  | obj members =>
    if hasClaimProperties (obj members) then
      claimDescription (parentPath ++ [key]) (obj members) ::
        processClaimsObject (· ∉ descriptionNames) (parentPath ++ [key]) members
    else processClaimsObject (fun _ => true) (parentPath ++ [key]) members
  | _ => []

/-- The descriptions that come from those members of a claims object that are kept. -/
def processClaimsObject (kept : String → Bool) (parentPath : List String) :
    List (String × Value) → List ClaimsDescription
  | [] => []
  | (key, value) :: members =>
    (if kept key then processClaim key parentPath value else []) ++
    processClaimsObject kept parentPath members

end

/-- `Object.entries(value)`. -/
def entriesOf : Value → List (String × Value)
  | obj members => members
  | _ => []

def claimsObjectToClaimsArray (claims : Value) : Option (List ClaimsDescription) := do
  let data ← zClaimsDraft14 claims
  some (processClaimsObject (fun _ => true) [] (entriesOf data))

example : claimsObjectToClaimsArray (obj [("address", obj [
    ("street", obj [("mandatory", .leaf (.bool false)), ("value_type", str "string")]),
    ("city", obj [("mandatory", .leaf (.bool true)), ("value_type", str "string")])])]) = some [
      ⟨["address", "street"], some false, none⟩, ⟨["address", "city"], some true, none⟩] := rfl

/-! ## The claims of an object -/

/-- The claim that a member of a claim, or of a claims object, is. -/
def nestedClaim (name : String) (claim : Value) : Option Value :=
  (claim.child (.name name)).filter isObject

/-- The claim at a path. -/
def claimAt : List String → Value → Option Value
  | [], claim => some claim
  | name :: path, claim => (nestedClaim name claim).bind (claimAt path)

theorem nestedClaim_eq_some {name : String} {claim x : Value} :
    nestedClaim name claim = some x ↔ claim.child (.name name) = some x ∧ x.isObject = true :=
  Option.filter_eq_some_iff

theorem nestedClaim_congr {name : String} {v w : Value}
    (h : v.child (.name name) = w.child (.name name)) :
    nestedClaim name v = nestedClaim name w := by
  rw [nestedClaim, nestedClaim, h]

theorem claimAt_cons_eq_some {name : String} {path : List String} {claim x : Value} :
    claimAt (name :: path) claim = some x ↔ ∃ y, nestedClaim name claim = some y ∧
    claimAt path y = some x :=
  Option.bind_eq_some_iff

theorem claimAt_append {path path' : List String} {claim : Value} :
    claimAt (path ++ path') claim = (claimAt path claim).bind (claimAt path') := by
  induction path generalizing claim with
  | nil => rfl
  | cons name path ih =>
    rw [List.cons_append, claimAt, claimAt, Option.bind_assoc]
    exact congrArg _ (funext fun x => ih)

theorem hasClaimProperties_iff {claim : Value} :
    hasClaimProperties claim = true ↔ ∃ name ∈ descriptionNames,
    claim.child (.name name) ≠ none := by
  cases claim with
  | leaf l => simp [hasClaimProperties]
  | arr items => simp [hasClaimProperties]
  | obj members =>
    rw [hasClaimProperties, List.any_eq_true]
    refine exists_congr fun name => and_congr_right fun _ => ?_
    rw [decide_eq_true_eq, child_name_obj, Ne, lookup_eq_none_iff, not_not]

/-! ## The descriptions that come from a claim -/

theorem processClaimsObject_eq_flatMap (kept : String → Bool) (parentPath : List String)
    (members : List (String × Value)) : processClaimsObject kept parentPath members =
      (members.filter fun m => kept m.1).flatMap fun m => processClaim m.1 parentPath m.2 := by
  induction members with
  | nil => rfl
  | cons m members ih =>
    rw [processClaimsObject, ih, List.filter_cons]
    by_cases hkept : kept m.1 = true
    · rw [if_pos hkept, if_pos hkept, List.flatMap_cons]
    · rw [if_neg hkept, if_neg hkept, List.nil_append]

theorem processClaim_of_not_isObject {value : Value} (h : ¬value.isObject = true) (key : String)
    (parentPath : List String) : processClaim key parentPath value = [] := by
  cases value with
  | leaf l => rfl
  | arr items => rfl
  | obj members => exact absurd rfl h

/-- The members that are named like part of a description lead to no descriptions. -/
theorem processClaim_obj (key : String) (parentPath : List String)
    (members : List (String × Value)) :
    processClaim key parentPath (obj members) =
      (if hasClaimProperties (obj members) then
        [claimDescription (parentPath ++ [key]) (obj members)] else []) ++
        (members.filter fun m => m.1 ∉ descriptionNames).flatMap fun m =>
          processClaim m.1 (parentPath ++ [key]) m.2 := by
  rw [processClaim]
  by_cases h : hasClaimProperties (obj members) = true
  · rw [if_pos h, if_pos h, processClaimsObject_eq_flatMap]
    rfl
  · rw [if_neg h, if_neg h, processClaimsObject_eq_flatMap, List.nil_append]
    -- No member is left out, as none has one of these names.
    congr 1
    refine List.filter_congr fun m hm => ?_
    have hname : m.1 ∉ descriptionNames := fun hname =>
      h (List.any_eq_true.mpr ⟨m.1, hname, decide_eq_true (mem_keys_of_mem hm)⟩)
    rw [decide_eq_true hname]

theorem mem_processClaim {value : Value} (hdistinct : value.Distinct) {key : String}
    {parentPath : List String} {description : ClaimsDescription} (hobject : value.isObject = true) :
    description ∈ processClaim key parentPath value ↔
      ∃ path claim, (∀ name ∈ path, name ∉ descriptionNames) ∧ claimAt path value = some claim ∧
        hasClaimProperties claim = true ∧
        description = claimDescription (parentPath ++ key :: path) claim := by
  induction value generalizing key parentPath with
  | leaf l =>
    -- an object of another class has no members
    refine iff_of_false List.not_mem_nil ?_
    rintro ⟨path, claim, -, hclaim, hproperties, -⟩
    cases path with
    | nil =>
      cases hclaim
      cases hproperties
    | cons name path =>
      obtain ⟨x, hx, -⟩ := claimAt_cons_eq_some.mp hclaim
      have := (nestedClaim_eq_some.mp hx).1
      rw [child_leaf] at this
      cases this
  | arr items => cases hobject
  | obj members ih =>
    obtain ⟨hnodup, hmembers⟩ : (keys members).Nodup ∧ ∀ m ∈ members, m.2.Distinct := by
      cases hdistinct with
      | obj hnodup hmembers => exact ⟨hnodup, hmembers⟩
    rw [processClaim_obj, List.mem_append, List.mem_flatMap]
    constructor
    · rintro (hfirst | ⟨m, hm, hrest⟩)
      · split_ifs at hfirst with h
        · rw [List.mem_singleton] at hfirst
          exact ⟨[], _, nofun, rfl, h, hfirst⟩
        · cases hfirst
      · obtain ⟨hm, hname⟩ := List.mem_filter.mp hm
        have hobject' : m.2.isObject = true := by
          by_contra hobject'
          rw [processClaim_of_not_isObject hobject'] at hrest
          cases hrest
        obtain ⟨path, claim, hpath, hclaim, hproperties, rfl⟩ :=
          (ih m hm (hmembers m hm) hobject').mp hrest
        have hnested : nestedClaim m.1 (obj members) = some m.2 :=
          nestedClaim_eq_some.mpr ⟨lookup_of_mem hnodup hm, hobject'⟩
        refine ⟨m.1 :: path, claim, List.forall_mem_cons.mpr ⟨of_decide_eq_true hname, hpath⟩,
          claimAt_cons_eq_some.mpr ⟨m.2, hnested, hclaim⟩, hproperties, ?_⟩
        rw [List.append_assoc, List.singleton_append]
    · rintro ⟨path, claim, hpath, hclaim, hproperties, rfl⟩
      cases path with
      | nil =>
        cases hclaim
        left
        rw [if_pos hproperties]
        exact List.mem_singleton.mpr rfl
      | cons name path =>
        right
        obtain ⟨hname, hpath⟩ := List.forall_mem_cons.mp hpath
        obtain ⟨x, hx, hclaim⟩ := claimAt_cons_eq_some.mp hclaim
        obtain ⟨hlookup, hobject'⟩ := nestedClaim_eq_some.mp hx
        have hm : (name, x) ∈ members := mem_of_lookup hlookup
        refine ⟨(name, x), List.mem_filter.mpr ⟨hm, decide_eq_true hname⟩, ?_⟩
        refine (ih (name, x) hm (hmembers _ hm) hobject').mpr ⟨path, claim, hpath, hclaim,
          hproperties, ?_⟩
        rw [List.append_assoc, List.singleton_append]

/-- The path of a description starts with that of the claim that it comes from. -/
theorem path_of_mem_processClaim {value : Value} (hdistinct : value.Distinct) {key : String}
    {parentPath : List String} {description : ClaimsDescription}
    (h : description ∈ processClaim key parentPath value) :
    ∃ path, description.path = parentPath ++ key :: path := by
  have hobject : value.isObject = true := by
    by_contra hobject
    rw [processClaim_of_not_isObject hobject] at h
    cases h
  obtain ⟨path, claim, -, -, -, rfl⟩ := (mem_processClaim hdistinct hobject).mp h
  exact ⟨path, rfl⟩

/-- The descriptions that come from claims of distinct names have distinct paths where those of each
claim have. -/
theorem nodup_flatMap_processClaim {members : List (String × Value)} (hnodup : (keys members).Nodup)
    (hdistinct : ∀ m ∈ members, m.2.Distinct) (parentPath : List String)
    (h : ∀ m ∈ members, ((processClaim m.1 parentPath m.2).map ClaimsDescription.path).Nodup) :
    ((members.flatMap fun m => processClaim m.1 parentPath m.2).map
      ClaimsDescription.path).Nodup := by
  rw [List.map_flatMap, List.nodup_flatMap]
  refine ⟨h, (List.pairwise_map.mp hnodup).imp_of_mem fun {m m'} hm hm' hne => ?_⟩
  rw [Function.onFun, List.disjoint_left]
  intro path hpath hpath'
  obtain ⟨d, hd, rfl⟩ := List.mem_map.mp hpath
  obtain ⟨d', hd', heq⟩ := List.mem_map.mp hpath'
  obtain ⟨rest, hrest⟩ := path_of_mem_processClaim (hdistinct m hm) hd
  obtain ⟨rest', hrest'⟩ := path_of_mem_processClaim (hdistinct m' hm') hd'
  rw [hrest, hrest', List.append_cancel_left_eq] at heq
  exact hne (List.cons.inj heq).1.symm

theorem nodup_processClaim {value : Value} (hdistinct : value.Distinct) (key : String)
    (parentPath : List String) :
    ((processClaim key parentPath value).map ClaimsDescription.path).Nodup := by
  induction value generalizing key parentPath with
  | leaf l => exact List.nodup_nil
  | arr items => exact List.nodup_nil
  | obj members ih =>
    obtain ⟨hnodup, hmembers⟩ : (keys members).Nodup ∧ ∀ m ∈ members, m.2.Distinct := by
      cases hdistinct with
      | obj hnodup hmembers => exact ⟨hnodup, hmembers⟩
    have hrest := nodup_flatMap_processClaim ((List.filter_sublist.map Prod.fst).nodup hnodup)
      (fun m hm => hmembers m (List.mem_of_mem_filter hm)) (parentPath ++ [key])
      (fun m (hm : m ∈ members.filter fun m => m.1 ∉ descriptionNames) =>
        ih m (List.mem_of_mem_filter hm) (hmembers m (List.mem_of_mem_filter hm)) _ _)
    rw [processClaim_obj, List.map_append]
    refine List.nodup_append'.mpr ⟨?_, hrest, ?_⟩
    · split_ifs
      · exact List.nodup_singleton _
      · exact List.nodup_nil
    · split_ifs
      · -- the paths of nested claims are longer
        intro path hpath hpath'
        obtain rfl := List.mem_singleton.mp hpath
        obtain ⟨d, hd, heq⟩ := List.mem_map.mp hpath'
        obtain ⟨m, hm, hd⟩ := List.mem_flatMap.mp hd
        obtain ⟨rest, hrest'⟩ :=
          path_of_mem_processClaim (hmembers m (List.mem_of_mem_filter hm)) hd
        have hlength := congrArg List.length (hrest'.symm.trans heq)
        simp [claimDescription] at hlength
      · exact List.disjoint_nil_left _

/-! ## What the schema of a claims object returns -/

section

variable {members members' : List (String × Value)}

theorem parseClaims_cons {key : String} {value : Value} (hkey : key ≠ "__proto__") :
    parseClaims ((key, value) :: members) = some members' ↔ ∃ claim claims,
      (zClaimsDescriptionDraft14 value).or (zClaimsDraft14 value) = some claim ∧
      parseClaims members = some claims ∧
        members' = (key, claim) :: claims := by
  rw [parseClaims, if_neg hkey]
  constructor
  · intro h
    obtain ⟨claim, hclaim, h⟩ := Option.bind_eq_some_iff.mp h
    obtain ⟨claims, hclaims, h⟩ := Option.bind_eq_some_iff.mp h
    exact ⟨claim, claims, hclaim, hclaims, (Option.some.inj h).symm⟩
  · rintro ⟨claim, claims, hclaim, hclaims, rfl⟩
    exact Option.bind_eq_some_iff.mpr ⟨claim, hclaim,
      Option.bind_eq_some_iff.mpr ⟨claims, hclaims, rfl⟩⟩

theorem parseClaims_proto {value : Value} :
    parseClaims (("__proto__", value) :: members) = parseClaims members := by
  rw [parseClaims, if_pos rfl]

theorem lookup_parseClaims (h : parseClaims members = some members') {key : String}
    (hkey : key ≠ "__proto__") :
    Option.Rel (fun value claim => (zClaimsDescriptionDraft14 value).or
      (zClaimsDraft14 value) = some claim)
      (members.lookup key) (members'.lookup key) := by
  induction members generalizing members' with
  | nil =>
    rw [parseClaims] at h
    cases h
    exact .none
  | cons m members ih =>
    by_cases hm : m.1 = "__proto__"
    · obtain ⟨_, value⟩ := m
      obtain rfl : _ = "__proto__" := hm
      rw [parseClaims_proto] at h
      rw [lookup_cons_of_ne (Ne.symm hkey)]
      exact ih h
    · obtain ⟨claim, claims, hclaim, hclaims, rfl⟩ := (parseClaims_cons hm).mp h
      by_cases heq : m.1 = key
      · subst heq
        rw [lookup_cons_of_eq, lookup_cons_of_eq]
        exact .some hclaim
      · rw [lookup_cons_of_ne heq, lookup_cons_of_ne (m := (m.1, claim)) heq]
        exact ih hclaims

theorem keys_parseClaims (h : parseClaims members = some members') :
    keys members' = (keys members).filter (· ≠ "__proto__") := by
  induction members generalizing members' with
  | nil =>
    rw [parseClaims] at h
    cases h
    rfl
  | cons m members ih =>
    by_cases hm : m.1 = "__proto__"
    · obtain ⟨_, value⟩ := m
      obtain rfl : _ = "__proto__" := hm
      rw [parseClaims_proto] at h
      rw [ih h, keys_cons, List.filter_cons_of_neg (by simp)]
    · obtain ⟨claim, claims, hclaim, hclaims, rfl⟩ := (parseClaims_cons hm).mp h
      rw [keys_cons, keys_cons, List.filter_cons_of_pos (by simpa using hm), ih hclaims]

end

end IdentityCommon.Openid4vci
