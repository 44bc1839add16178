import IdentityCommon.SdJwt.Decode

/-!
# Type metadata

The claims of a credential against the metadata of its type.

## Main definitions

- `Claim`, `TypeMetadataFormat` — what type metadata says about a claim
- `collectPresentClaims` — the claims that are present, and whether they are disclosed
- `mandatoryClaimStatus` — whether a mandatory claim is present, missing, or not disclosed
- `verifyClaimsAgainstTypeMetadata` — the claims that do not conform

## Design notes

The values of disclosures are visited to a bounded depth: a disclosure in its own value would be
visited without end. What is disclosed for a digest is that of `SdJwt.Decode`.
-/

namespace IdentityCommon.SdJwtVc

open Ecma Value AssocList SdJwt

/-- The steps to a claim; `none` is every element of an array. -/
abbrev ClaimPath := List (Option String)

inductive ClaimSelectiveDisclosure
  | always
  | allowed
  | never
  deriving DecidableEq

/-- What type metadata says about a claim. -/
structure Claim where
  path : ClaimPath
  sd : Option ClaimSelectiveDisclosure := none
  mandatory : Option Bool := none
  svg_id : Option String := none
  deriving DecidableEq

structure TypeMetadataFormat where
  vct : String
  «extends» : Option String := none
  extendsIntegrity : Option String := none
  display : Option (List String) := none
  claims : Option (List Claim) := none
  deriving DecidableEq

/-- `typeMetadata.claims ?? []`. -/
def TypeMetadataFormat.claimList (typeMetadata : TypeMetadataFormat) : List Claim :=
  typeMetadata.claims.getD []

/-! ## Paths -/

def segmentMatches : Option String → Key → Bool
  | none, .index _ => true
  | some s, .name k => s = k
  | _, _ => false

def segmentsMatch : ClaimPath → List Key → ℕ → Bool
  | _, _, 0 => true
  | seg :: claimPath, k :: presentPath, length + 1 =>
      segmentMatches seg k && segmentsMatch claimPath presentPath length
  | _, _, _ + 1 => false

def claimPathMatches (claimPath : ClaimPath) (presentPath : List Key) : Bool :=
  claimPath.length = presentPath.length && segmentsMatch claimPath presentPath claimPath.length

def toCanonicalClaimPath (path : List Key) : ClaimPath :=
  path.map fun seg => match seg with
    | .index _ => none
    | .name s => some s

/-! ## The claims that are present -/

structure PresentClaim where
  path : List Key
  isSd : Bool
  deriving DecidableEq

/-- The digest in an array element, if it is nothing else. -/
def arrayElementDigest (value : Value) : Option String := (placeholder value).join

/-- The elements of `_sd`. -/
def digestsOf (record : List (String × Value)) : List Value :=
  match record.lookup SD_DIGEST with
  | some (arr digests) => digests
  | _ => []

/-- What is disclosed for an element of `_sd`. -/
def disclosedFor (disclosures : DisclosureMap) : Value → Option (Option String × Value)
  | str digest => disclosed disclosures digest
  | _ => none

abbrev Visitor := List Key → Value → Option (List PresentClaim)

def visitDigests (disclosures : DisclosureMap) (again : Visitor) (path : List Key) :
    List Value → Option (List PresentClaim)
  | [] => some []
  | digest :: digests =>
    match disclosedFor disclosures digest with
    | some (some key, value) => do
      let below ← again (path ++ [.name key]) value
      let others ← visitDigests disclosures again path digests
      some (⟨path ++ [.name key], true⟩ :: (below ++ others))
    | _ => visitDigests disclosures again path digests

mutual

/-- The claims in a value; `again` visits the values of disclosures. -/
def visit (disclosures : DisclosureMap) (again : Visitor) (path : List Key) :
    Value → Option (List PresentClaim)
  | leaf _ => some []
  | arr items => visitItems disclosures again path 0 items
  | obj record => do
    let own ← visitMembers disclosures again path record
    let below ← visitDigests disclosures again path (digestsOf record)
    some (own ++ below)

def visitItems (disclosures : DisclosureMap) (again : Visitor) (path : List Key) (index : ℕ) :
    List Value → Option (List PresentClaim)
  | [] => some []
  | element :: elements =>
    match arrayElementDigest element with
    | some digest =>
      match disclosed disclosures digest with
      | some (_, value) => do
        let below ← again (path ++ [.index index]) value
        let others ← visitItems disclosures again path (index + 1) elements
        some (⟨path ++ [.index index], true⟩ :: (below ++ others))
      | none => visitItems disclosures again path (index + 1) elements
    | none => do
      let below ← visit disclosures again (path ++ [.index index]) element
      let others ← visitItems disclosures again path (index + 1) elements
      some (⟨path ++ [.index index], false⟩ :: (below ++ others))

def visitMembers (disclosures : DisclosureMap) (again : Visitor) (path : List Key) :
    List (String × Value) → Option (List PresentClaim)
  | [] => some []
  | (key, value) :: record =>
    if key = SD_DIGEST ∨ (path = [] ∧ key = "_sd_alg") then
      visitMembers disclosures again path record
    else do
      let below ← visit disclosures again (path ++ [.name key]) value
      let others ← visitMembers disclosures again path record
      some (⟨path ++ [.name key], false⟩ :: (below ++ others))

end

/-- The visit of a value with disclosures inside disclosures to a depth. -/
def visitN (disclosures : DisclosureMap) : ℕ → Visitor
  | 0 => fun _ _ => none
  | n + 1 => visit disclosures (visitN disclosures n)

def collectPresentClaims (payload : Value) (disclosures : DisclosureMap) :
    Option (List PresentClaim) :=
  visitN disclosures (depthBound disclosures) [] payload

/-! ## Mandatory claims -/

inductive ClaimStatus
  | present
  | missing
  | undisclosed
  deriving DecidableEq

structure ChildEntries where
  present : List Value
  hidden : Bool

def elementEntries (disclosures : DisclosureMap) : List Value → ChildEntries
  | [] => ⟨[], false⟩
  | element :: elements =>
    let others := elementEntries disclosures elements
    match arrayElementDigest element with
    | none => ⟨element :: others.present, others.hidden⟩
    | some digest =>
      match disclosed disclosures digest with
      | some (_, value) => ⟨value :: others.present, others.hidden⟩
      | none => ⟨others.present, true⟩

def digestEntries (segment : String) (disclosures : DisclosureMap) : List Value → ChildEntries
  | [] => ⟨[], false⟩
  | digest :: digests =>
    let others := digestEntries segment disclosures digests
    match disclosedFor disclosures digest with
    | none => ⟨others.present, true⟩
    | some (key, value) =>
        if key = some segment then ⟨value :: others.present, others.hidden⟩ else others

/-- The values that a step leads to, and whether one is hidden that it may lead to. -/
def childEntries (node : Value) (segment : Option String) (disclosures : DisclosureMap) :
    ChildEntries :=
  match segment, node with
  | none, arr elements => elementEntries disclosures elements
  | some segment, obj record =>
    let own := if segment = SD_DIGEST then [] else (record.lookup segment).toList
    let others := digestEntries segment disclosures (digestsOf record)
    ⟨own ++ others.present, others.hidden⟩
  | _, _ => ⟨[], false⟩

/-- A child that is missing counts most, then one that is not disclosed. -/
def combine (statuses : List ClaimStatus) : ClaimStatus :=
  if .missing ∈ statuses then .missing
  else if .undisclosed ∈ statuses then .undisclosed
  else .present

/-- What metadata says about disclosing the claim at a path. -/
def sdOf (metadataClaims : List Claim) (path : ClaimPath) : Option ClaimSelectiveDisclosure :=
  (metadataClaims.find? fun mc => mc.path = path).bind Claim.sd

/-- The status of the claims that the rest of a path leads to. -/
def walk (metadataClaims : List Claim) (disclosures : DisclosureMap) :
    ClaimPath → ClaimPath → Value → ClaimStatus
  | _, [], _ => .present
  | before, segment :: rest, node =>
    let entries := childEntries node segment disclosures
    let status :=
      combine (entries.present.map (walk metadataClaims disclosures (before ++ [segment]) rest))
    if status = .missing then .missing
    else match segment with
    | none =>
      if !node.isArray then .missing
      else if entries.present.isEmpty && entries.hidden then .undisclosed else status
    | some _ =>
      if !entries.present.isEmpty then status
      else if entries.hidden && sdOf metadataClaims (before ++ [segment]) ≠
        some .never then .undisclosed
      else .missing

def mandatoryClaimStatus (claim : Claim) (metadataClaims : List Claim) (packedPayload : Value)
    (disclosures : DisclosureMap) : ClaimStatus :=
    walk metadataClaims disclosures [] claim.path packedPayload

/-! ## Verification -/

def REGISTERED_CLAIMS : List String :=
  ["iss", "nbf", "exp", "iat", "sub", "cnf", "vct", "vct#integrity", "status"]

/-- A set of paths, in the order in which they were first added. -/
def pathSet (paths : List ClaimPath) : List ClaimPath :=
  paths.foldl (fun set path => if path ∈ set then set else set ++ [path]) []

structure TypeMetadataVerificationResult where
  extraClaims : List ClaimPath
  missingMandatoryClaims : List ClaimPath
  undisclosedMandatoryClaims : List ClaimPath
  invalidNonSelectivelyDisclosableClaims : List ClaimPath
  invalidSelectivelyDisclosableClaims : List ClaimPath
  deriving DecidableEq

def hasDeclaredChildren (metadataClaims : List Claim) (claimPath : ClaimPath) : Bool :=
  metadataClaims.any fun mc => claimPath.length < mc.path.length ∧
  mc.path.take claimPath.length = claimPath

def keyText : Key → String
  | .name s => s
  | .index n => Nat.repr n

/-- The first step of a claim is the first one of a path. -/
def sameStart (claimPath : ClaimPath) (path : List Key) : Bool :=
  match claimPath.head?, path.head? with
  | some (some s), some (.name k) => s = k
  | none, none => true
  | _, _ => false

def isCovered (metadataClaims : List Claim) (path : List Key) : Bool :=
  (path.head?.any (fun k => keyText k ∈ REGISTERED_CLAIMS) && !metadataClaims.any fun mc =>
    sameStart mc.path path) || metadataClaims.any fun mc =>
      (path.length < mc.path.length && segmentsMatch mc.path path path.length) ||
        (mc.path.length < path.length && segmentsMatch mc.path path mc.path.length &&
          !hasDeclaredChildren metadataClaims mc.path)

/-- The paths of the claims that are disclosed against their metadata, in one way or the other. -/
def invalidClaims (sd : ClaimSelectiveDisclosure) (isSd : Bool) (metadataClaims : List Claim)
    (presentClaims : List PresentClaim) : List ClaimPath :=
  pathSet (presentClaims.flatMap fun presentClaim =>
    (metadataClaims.filter fun mc =>
      claimPathMatches mc.path presentClaim.path &&
        (mc.sd = some sd && presentClaim.isSd = isSd)).map Claim.path)

/-- The paths of the claims that are not declared, without those below another one. -/
def extraClaims (typeMetadata : TypeMetadataFormat) (presentClaims : List PresentClaim) :
    List ClaimPath :=
  let extra := pathSet ((presentClaims.filter fun presentClaim =>
    !typeMetadata.claimList.any (fun mc => claimPathMatches mc.path presentClaim.path) &&
      (typeMetadata.claims.isSome && !isCovered typeMetadata.claimList presentClaim.path)).map
        fun presentClaim =>
        toCanonicalClaimPath presentClaim.path)
  extra.filter fun path => !extra.any fun other => other.length < path.length ∧
  other = path.take other.length

/-- The paths of the mandatory claims with a status. -/
def mandatoryClaims (status : ClaimStatus) (metadataClaims : List Claim) (packedPayload : Value)
    (disclosures : DisclosureMap) : List ClaimPath :=
  pathSet ((metadataClaims.filter fun mc =>
    mc.mandatory.getD false && mandatoryClaimStatus mc metadataClaims packedPayload disclosures =
      status).map Claim.path)

def verifyClaimsAgainstTypeMetadata (typeMetadata : TypeMetadataFormat) (packedPayload : Value)
    (disclosures : DisclosureMap) : Option TypeMetadataVerificationResult := do
  let metadataClaims := typeMetadata.claimList
  let presentClaims ← collectPresentClaims packedPayload disclosures
  return {
    extraClaims := extraClaims typeMetadata presentClaims
    missingMandatoryClaims := mandatoryClaims .missing metadataClaims packedPayload disclosures
    undisclosedMandatoryClaims := mandatoryClaims .undisclosed metadataClaims
      packedPayload disclosures
    invalidNonSelectivelyDisclosableClaims :=
      invalidClaims .always false metadataClaims presentClaims
    invalidSelectivelyDisclosableClaims := invalidClaims .never true metadataClaims presentClaims }

theorem mem_pathSet {path : ClaimPath} {paths : List ClaimPath} :
    path ∈ pathSet paths ↔ path ∈ paths := by
  have hfold : ∀ set : List ClaimPath,
      path ∈ paths.foldl (fun set path => if path ∈ set then set else set ++ [path]) set ↔
        path ∈ set ∨ path ∈ paths := by
    induction paths with
    | nil => simp
    | cons p paths ih =>
      intro set
      rw [List.foldl_cons, ih, List.mem_cons]
      split_ifs with hmem
      · constructor
        · rintro (h | h)
          · exact .inl h
          · exact .inr (.inr h)
        · rintro (h | rfl | h)
          · exact .inl h
          · exact .inl hmem
          · exact .inr h
      · rw [List.mem_append, List.mem_singleton, or_assoc]
  rw [pathSet, hfold]
  simp

theorem mem_mandatoryClaims {status : ClaimStatus} {metadataClaims : List Claim}
    {packedPayload : Value} {disclosures : DisclosureMap} {path : ClaimPath} :
    path ∈ mandatoryClaims status metadataClaims packedPayload disclosures ↔
      ∃ mc ∈ metadataClaims, mc.mandatory = some true ∧ mc.path = path ∧
        walk metadataClaims disclosures [] path packedPayload = status := by
  rw [mandatoryClaims, mem_pathSet, List.mem_map]
  constructor
  · rintro ⟨mc, hmc, rfl⟩
    obtain ⟨hmem, hstatus⟩ := List.mem_filter.mp hmc
    obtain ⟨hmandatory, hstatus⟩ := Bool.and_eq_true_iff.mp hstatus
    refine ⟨mc, hmem, ?_, rfl, of_decide_eq_true hstatus⟩
    cases h : mc.mandatory with
    | none => rw [h] at hmandatory; cases hmandatory
    | some b => rw [h] at hmandatory; exact congrArg some hmandatory
  · rintro ⟨mc, hmem, hmandatory, rfl, hstatus⟩
    refine ⟨mc, List.mem_filter.mpr
      ⟨hmem, Bool.and_eq_true_iff.mpr ⟨by rw [hmandatory]; rfl, ?_⟩⟩, rfl⟩
    exact decide_eq_true hstatus

theorem mem_invalidClaims {sd : ClaimSelectiveDisclosure} {isSd : Bool}
    {metadataClaims : List Claim} {presentClaims : List PresentClaim} {path : ClaimPath} :
    path ∈ invalidClaims sd isSd metadataClaims presentClaims ↔
      (∃ mc ∈ metadataClaims, mc.path = path ∧ mc.sd = some sd) ∧
        ∃ presentClaim ∈ presentClaims, claimPathMatches path presentClaim.path = true ∧
        presentClaim.isSd = isSd := by
  rw [invalidClaims, mem_pathSet, List.mem_flatMap]
  constructor
  · rintro ⟨presentClaim, hpresent, hmem⟩
    obtain ⟨mc, hmc, rfl⟩ := List.mem_map.mp hmem
    obtain ⟨hmc, h⟩ := List.mem_filter.mp hmc
    simp only [Bool.and_eq_true, decide_eq_true_eq] at h
    exact ⟨⟨mc, hmc, rfl, h.2.1⟩, presentClaim, hpresent, h.1, h.2.2⟩
  · rintro ⟨⟨mc, hmc, rfl, hsd⟩, presentClaim, hpresent, hmatches, hisSd⟩
    refine ⟨presentClaim, hpresent, List.mem_map.mpr ⟨mc, List.mem_filter.mpr ⟨hmc, ?_⟩, rfl⟩⟩
    simp only [Bool.and_eq_true, decide_eq_true_eq]
    exact ⟨hmatches, hsd, hisSd⟩

end IdentityCommon.SdJwtVc
