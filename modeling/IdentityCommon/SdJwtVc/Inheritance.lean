import IdentityCommon.SdJwtVc.TypeMetadata
import IdentityCommon.Lib.Except

/-!
# Types that extend types

Type metadata that is merged along a chain of documents, and what is left of the constraints of the
documents that are extended.

## Main definitions

- `mergeTypeMetadata` — a document over the metadata it extends
- `resolveVctExtendsChain` — the documents of a chain, merged
- `declared` — the entry of the most derived document that declares a path
- `Inherits` — what is kept of the documents of a chain
- `KeepsConstraints` — no document leaves out a constraint of an entry that it overrides

## Main results

- `resolveVctExtendsChain_eq_ok` — the merged metadata is that of the chain
- `inherits_iff` — constraints are kept exactly where no document leaves one out
- `relaxedClaim_resolves` — a document that leaves both constraints out
-/

namespace IdentityCommon.SdJwtVc

open Ecma Value AssocList SdJwt IdentityCommon.Except

/-! ## Merging -/

structure VctError where
  message : String
  deriving DecidableEq

def sdText : ClaimSelectiveDisclosure → String
  | .always => "always"
  | .allowed => "allowed"
  | .never => "never"

def segmentValue : Option String → Value
  | some s => str s
  | none => null

/-- `JSON.stringify(path)`. -/
def pathText (path : ClaimPath) : String :=
  String.ofList ((Json.stringify (arr (path.map segmentValue))).getD [])

def restricts (sd : ClaimSelectiveDisclosure) : Bool := sd = .always ∨ sd = .never

def validateClaimExtension (baseClaim extendingClaim : Claim) : Except VctError Unit :=
  match baseClaim.sd, extendingClaim.sd with
  | some baseSd, some extendingSd =>
    if restricts baseSd ∧ baseSd ≠ extendingSd then
      .error ⟨"Cannot change 'sd' property from '" ++ sdText baseSd ++ "' to '" ++
        sdText extendingSd ++ "' for claim at path " ++ pathText extendingClaim.path⟩
    else .ok ()
  | _, _ => .ok ()

def validateExtensions (baseClaims : List Claim) : List Claim → Except VctError Unit
  | [] => .ok ()
  | extendingClaim :: extendingClaims => do
    let valid := match baseClaims.find? fun baseClaim => baseClaim.path = extendingClaim.path with
      | some baseClaim => validateClaimExtension baseClaim extendingClaim
      | none => .ok ()
    valid
    validateExtensions baseClaims extendingClaims

/-- The claims of the base, each replaced by one that extends it, and then the extending claims that
are left. -/
def mergeClaims : List Claim → List Claim → List Claim
  | [], extendingClaims => extendingClaims
  | baseClaim :: baseClaims, extendingClaims =>
    match extendingClaims.find? fun extendingClaim => baseClaim.path = extendingClaim.path with
    | some extendingClaim =>
      extendingClaim :: mergeClaims baseClaims (extendingClaims.eraseP fun extendingClaim =>
        baseClaim.path = extendingClaim.path)
    | none => baseClaim :: mergeClaims baseClaims extendingClaims

def mergeTypeMetadata (base extending : TypeMetadataFormat) :
    Except VctError TypeMetadataFormat := do
  let merged := if base.claims.isSome || extending.claims.isSome then
      (validateExtensions base.claimList extending.claimList).map fun _ =>
        some (mergeClaims base.claimList extending.claimList)
    else .ok extending.claims
  let claims ← merged
  return { extending with claims, display := extending.display <|> base.display }

/-! ## Chains -/

structure ResolvedTypeMetadata where
  mergedTypeMetadata : TypeMetadataFormat
  typeMetadataChain : List TypeMetadataFormat
  vctValues : List String

/-- The documents that are fetched for a type, if there are any, as they are validated. -/
abbrev VctFetcher := String → Option String → Except VctError (Option TypeMetadataFormat)

def fetchSingleVct (fetcher : VctFetcher) (vct : String) (integrity : Option String) :
    Except VctError (Option TypeMetadataFormat) := do
  match ← fetcher vct integrity with
  | none => return none
  | some data =>
    if data.vct ≠ vct then
      .error ⟨"Type metadata fetched for vct '" ++ vct ++ "' describes vct '" ++ data.vct ++
        "'. The vct of the type metadata must match."⟩
    else return some data

/-- `typeMetadata.extends`, if the condition on it holds. -/
def TypeMetadataFormat.extended (typeMetadata : TypeMetadataFormat) : Option String :=
  typeMetadata.extends.filter (· ≠ "")

/-- The chain from a document on. The depth is not bounded where `maxDepth` is -1, so that the
number of documents is bounded by `fuel`; `depth` is that of the document. -/
def resolveVctExtendsChain (fetcher : VctFetcher) (maxDepth : ℤ) :
    ℕ → TypeMetadataFormat → ℕ → List String → Except VctError ResolvedTypeMetadata
  | 0, _, _, _ => .error ⟨"out of fuel"⟩
  | fuel + 1, parentTypeMetadata, depth, visitedVcts => do
    if maxDepth ≠ -1 ∧ maxDepth < depth then
      .error ⟨"Maximum VCT extends depth of " ++ toString maxDepth ++ " exceeded"⟩
    else match parentTypeMetadata.extended with
    | none =>
      .error ⟨"Type metadata for vct '" ++ parentTypeMetadata.vct ++
        "' has no 'extends' field. Unable to resolve extended type metadata document."⟩
    | some vct =>
      if vct ∈ visitedVcts then
        .error ⟨"Circular dependency detected in VCT extends chain: " ++ vct⟩
      else do
        let fetched ← fetchSingleVct fetcher vct parentTypeMetadata.extendsIntegrity
        match fetched with
        | none => .error ⟨"Resolving VCT extends value '" ++ vct ++
            "' resulted in an undefined result."⟩
        | some extendedTypeMetadata =>
          let below := if extendedTypeMetadata.extended.isSome then
              resolveVctExtendsChain fetcher maxDepth fuel extendedTypeMetadata (depth + 1)
                (vct :: visitedVcts)
            else .ok ⟨extendedTypeMetadata, [extendedTypeMetadata], [extendedTypeMetadata.vct]⟩
          let resolved ← below
          let mergedTypeMetadata ← mergeTypeMetadata resolved.mergedTypeMetadata parentTypeMetadata
          return ⟨mergedTypeMetadata, parentTypeMetadata :: resolved.typeMetadataChain,
            parentTypeMetadata.vct :: resolved.vctValues⟩

/-- The documents of a chain, from the most derived one on, merged. -/
def mergeChain : List TypeMetadataFormat → Except VctError TypeMetadataFormat
  | [] => .error ⟨"no document"⟩
  | [typeMetadata] => .ok typeMetadata
  | extending :: chain => do
    let base ← mergeChain chain
    mergeTypeMetadata base extending

/-- The merged metadata is that of the chain. -/
theorem resolveVctExtendsChain_eq_ok {fetcher : VctFetcher} {maxDepth : ℤ} {fuel : ℕ}
    {typeMetadata : TypeMetadataFormat} {depth : ℕ} {visitedVcts : List String}
    {resolved : ResolvedTypeMetadata}
    (h : resolveVctExtendsChain fetcher maxDepth fuel typeMetadata depth visitedVcts =
      .ok resolved) :
    mergeChain resolved.typeMetadataChain = .ok resolved.mergedTypeMetadata ∧
      resolved.typeMetadataChain.head? = some typeMetadata ∧
      resolved.vctValues = resolved.typeMetadataChain.map TypeMetadataFormat.vct := by
  induction fuel generalizing typeMetadata depth visitedVcts resolved with
  | zero => cases h
  | succ fuel ih =>
    rw [resolveVctExtendsChain] at h
    split_ifs at h
    split at h
    · cases h
    · next vct _ =>
      split_ifs at h
      obtain ⟨fetched, _, h⟩ := bind_eq_ok.mp h
      cases fetched with
      | none => cases h
      | some extendedTypeMetadata =>
        obtain ⟨below, hbelow, h⟩ := bind_eq_ok.mp h
        obtain ⟨merged, hmerged, h⟩ := bind_eq_ok.mp h
        cases h
        have hchain : mergeChain below.typeMetadataChain = .ok below.mergedTypeMetadata ∧
            below.typeMetadataChain.head? = some extendedTypeMetadata ∧
            below.vctValues = below.typeMetadataChain.map TypeMetadataFormat.vct := by
          split_ifs at hbelow
          · exact ih hbelow
          · cases hbelow
            exact ⟨rfl, rfl, rfl⟩
        obtain ⟨hmerge, hhead, hvct⟩ := hchain
        refine ⟨?_, rfl, congrArg _ hvct⟩
        cases hlist : below.typeMetadataChain with
        | nil =>
          rw [hlist] at hhead
          cases hhead
        | cons d chain =>
          rw [hlist] at hmerge
          exact bind_eq_ok.mpr ⟨_, hmerge, hmerged⟩

/-! ## Entries -/

/-- The entry for a path. -/
def entryAt (claims : List Claim) (path : ClaimPath) : Option Claim :=
  claims.find? fun mc => mc.path = path

def paths (claims : List Claim) : List ClaimPath := claims.map Claim.path

@[simp] theorem paths_cons (mc : Claim) (claims : List Claim) :
    paths (mc :: claims) = mc.path :: paths claims := rfl

theorem entryAt_eq_none {claims : List Claim} {path : ClaimPath} :
    entryAt claims path = none ↔ path ∉ paths claims := by
  rw [entryAt, List.find?_eq_none, paths, List.mem_map]
  constructor
  · rintro h ⟨mc, hmc, rfl⟩
    exact h mc hmc (decide_eq_true rfl)
  · intro h mc hmc heq
    exact h ⟨mc, hmc, of_decide_eq_true heq⟩

theorem mem_of_entryAt {claims : List Claim} {path : ClaimPath} {entry : Claim}
    (h : entryAt claims path = some entry) :
    entry ∈ claims ∧ entry.path = path := by
  have hpath := List.find?_some h
  exact ⟨List.mem_of_find?_eq_some h, by simpa using hpath⟩

/-- Without duplicate paths every entry is the one for its path. -/
theorem entryAt_of_mem {claims : List Claim} (hn : (paths claims).Nodup) {entry : Claim}
    (h : entry ∈ claims) :
    entryAt claims entry.path = some entry := by
  induction claims with
  | nil => cases h
  | cons mc claims ih =>
    obtain ⟨hnot, hn⟩ := List.nodup_cons.mp hn
    rw [entryAt, List.find?_cons]
    rcases List.mem_cons.mp h with rfl | h
    · rw [decide_eq_true rfl]
    · have hne : mc.path ≠ entry.path := fun heq => hnot (heq ▸ List.mem_map_of_mem h)
      rw [decide_eq_false hne]
      exact ih hn h

/-- Without duplicate paths, erasing the entry for a path leaves the entries for the others. -/
theorem eraseP_eq_filter {claims : List Claim} (hn : (paths claims).Nodup) (path : ClaimPath) :
    claims.eraseP (fun mc => path = mc.path) = claims.filter fun mc => mc.path ≠ path := by
  induction claims with
  | nil => rfl
  | cons mc claims ih =>
    obtain ⟨hnot, hn⟩ := List.nodup_cons.mp hn
    rw [List.eraseP_cons, List.filter_cons]
    by_cases heq : mc.path = path
    · subst heq
      have hall : claims.filter (fun mc' => decide (mc'.path ≠ mc.path)) = claims := by
        refine List.filter_eq_self.mpr fun mc' hmc' => decide_eq_true fun heq => hnot ?_
        exact heq ▸ List.mem_map_of_mem hmc'
      rw [decide_eq_true rfl, cond_true, if_neg (by simp), hall]
    · rw [decide_eq_false (Ne.symm heq), cond_false, if_pos (decide_eq_true heq), ih hn]

theorem paths_filter (claims : List Claim) (p : ClaimPath → Bool) :
    paths (claims.filter fun mc => p mc.path) = (paths claims).filter p := by
  rw [paths, paths, List.filter_map]
  rfl

/-- The entries of the base, each replaced by the one that extends it, and the other ones that
extend. -/
theorem mergeClaims_eq {baseClaims extendingClaims : List Claim} (hb : (paths baseClaims).Nodup)
    (he : (paths extendingClaims).Nodup) :
    mergeClaims baseClaims extendingClaims =
      (baseClaims.map fun mc => (entryAt extendingClaims mc.path).getD mc) ++
        extendingClaims.filter fun mc => mc.path ∉ paths baseClaims := by
  induction baseClaims generalizing extendingClaims with
  | nil => simp [mergeClaims, paths]
  | cons mc baseClaims ih =>
    obtain ⟨hnot, hb⟩ := List.nodup_cons.mp hb
    have hfind : extendingClaims.find? (fun e => decide (mc.path = e.path)) =
        entryAt extendingClaims mc.path := by
      simp only [entryAt, eq_comm]
    rw [mergeClaims, hfind, List.map_cons]
    cases hentry : entryAt extendingClaims mc.path with
    | none =>
      have habsent := entryAt_eq_none.mp hentry
      have hfilter : (extendingClaims.filter fun e => e.path ∉ paths (mc :: baseClaims)) =
          extendingClaims.filter fun e => e.path ∉ paths baseClaims := by
        refine List.filter_congr fun e hmem => ?_
        have hne : e.path ≠ mc.path := fun heq => habsent (heq ▸ List.mem_map_of_mem hmem)
        simp [hne]
      rw [hfilter, ih hb he]
      rfl
    | some extendingClaim =>
      dsimp only
      have hn : (paths (extendingClaims.filter fun e => e.path ≠ mc.path)).Nodup := by
        rw [paths_filter extendingClaims (· ≠ mc.path)]
        exact he.filter _
      rw [eraseP_eq_filter he, ih hb hn, List.cons_append, List.filter_filter]
      -- Erasing the entry changes neither those for the other paths nor the ones that are left.
      have hmap : (baseClaims.map fun b =>
          (entryAt (extendingClaims.filter fun e => e.path ≠ mc.path) b.path).getD b) =
          baseClaims.map fun b => (entryAt extendingClaims b.path).getD b := by
        refine List.map_congr_left fun b hmem => ?_
        have hne : b.path ≠ mc.path := fun heq => hnot (heq ▸ List.mem_map_of_mem hmem)
        rw [entryAt, entryAt, List.find?_filter]
        congr 2
        funext e
        by_cases heq : e.path = b.path
        · simp [heq, hne]
        · simp [heq]
      have hfilter : (extendingClaims.filter fun e => (decide (e.path ∉ paths baseClaims) &&
          decide (e.path ≠ mc.path))) =
          extendingClaims.filter fun e => e.path ∉ paths (mc :: baseClaims) := by
        refine List.filter_congr fun e _ => ?_
        by_cases heq : e.path = mc.path
        · simp [heq]
        · simp [heq]
      rw [hmap, hfilter]
      rfl

theorem path_getD_entryAt (extendingClaims : List Claim) (mc : Claim) :
    ((entryAt extendingClaims mc.path).getD mc).path = mc.path := by
  cases h : entryAt extendingClaims mc.path with
  | none => rfl
  | some entry => exact (mem_of_entryAt h).2

theorem paths_mergeClaims {baseClaims extendingClaims : List Claim} (hb : (paths baseClaims).Nodup)
    (he : (paths extendingClaims).Nodup) :
    paths (mergeClaims baseClaims extendingClaims) =
      paths baseClaims ++ (paths extendingClaims).filter fun path => path ∉ paths baseClaims := by
  rw [mergeClaims_eq hb he, ← paths_filter extendingClaims fun path => path ∉ paths baseClaims,
    paths, List.map_append, List.map_map]
  congr 1
  exact List.map_congr_left fun mc _ => path_getD_entryAt extendingClaims mc

theorem nodup_mergeClaims {baseClaims extendingClaims : List Claim} (hb : (paths baseClaims).Nodup)
    (he : (paths extendingClaims).Nodup) :
    (paths (mergeClaims baseClaims extendingClaims)).Nodup := by
  rw [paths_mergeClaims hb he]
  refine List.nodup_append'.mpr ⟨hb, he.filter _, fun path hbase hextending => ?_⟩
  exact of_decide_eq_true (List.mem_filter.mp hextending).2 hbase

/-- The entry that extends counts, if there is one. -/
theorem entryAt_mergeClaims {baseClaims extendingClaims : List Claim}
    (hb : (paths baseClaims).Nodup) (he : (paths extendingClaims).Nodup) (path : ClaimPath) :
    entryAt (mergeClaims baseClaims extendingClaims) path =
      (entryAt extendingClaims path).or (entryAt baseClaims path) := by
  have hn := nodup_mergeClaims hb he
  have hmem : ∀ entry, entry ∈ mergeClaims baseClaims extendingClaims ↔
      (∃ mc ∈ baseClaims, (entryAt extendingClaims mc.path).getD mc = entry) ∨
        entry ∈ extendingClaims ∧ entry.path ∉ paths baseClaims := by
    intro entry
    rw [mergeClaims_eq hb he, List.mem_append, List.mem_map, List.mem_filter, decide_eq_true_eq]
  cases hextending : entryAt extendingClaims path with
  | some entry =>
    obtain ⟨hentry, rfl⟩ := mem_of_entryAt hextending
    refine entryAt_of_mem hn ((hmem entry).mpr ?_)
    by_cases hbase : entry.path ∈ paths baseClaims
    · obtain ⟨mc, hmc, hpath⟩ := List.mem_map.mp hbase
      exact .inl ⟨mc, hmc, by rw [hpath, hextending, Option.getD_some]⟩
    · exact .inr ⟨hentry, hbase⟩
  | none =>
    rw [Option.none_or]
    cases hbase : entryAt baseClaims path with
    | some mc =>
      obtain ⟨hmc, rfl⟩ := mem_of_entryAt hbase
      exact entryAt_of_mem hn ((hmem mc).mpr (.inl ⟨mc, hmc, by rw [hextending, Option.getD_none]⟩))
    | none =>
      rw [entryAt_eq_none, paths_mergeClaims hb he, List.mem_append, List.mem_filter]
      rintro (h | h)
      · exact entryAt_eq_none.mp hbase h
      · exact entryAt_eq_none.mp hextending h.1

/-! ## Chains of entries -/

/-- The entry of the most derived document that declares a path. -/
def declared (chain : List TypeMetadataFormat) (path : ClaimPath) : Option Claim :=
  chain.findSome? fun typeMetadata => entryAt typeMetadata.claimList path

/-- The paths of a chain, those of the document that is extended last first. -/
def baseFirst (chain : List TypeMetadataFormat) : List ClaimPath :=
  pathSet (chain.reverse.flatMap fun typeMetadata => paths typeMetadata.claimList)

/-- No document has two entries for a path. -/
def NoDuplicatePaths (chain : List TypeMetadataFormat) : Prop :=
  ∀ typeMetadata ∈ chain, (paths typeMetadata.claimList).Nodup

theorem pathSet_append {ps qs : List ClaimPath} (hn : qs.Nodup) :
    pathSet (ps ++ qs) = pathSet ps ++ qs.filter fun path => path ∉ pathSet ps := by
  rw [pathSet, List.foldl_append]
  change qs.foldl _ (pathSet ps) = _
  generalize pathSet ps = set
  induction qs generalizing set with
  | nil => simp
  | cons q qs ih =>
    obtain ⟨hq, hn⟩ := List.nodup_cons.mp hn
    rw [List.foldl_cons, ih hn]
    split_ifs with hmem
    · rw [List.filter_cons_of_neg (by simpa using hmem)]
    · rw [List.filter_cons_of_pos (by simpa using hmem), List.append_assoc, List.singleton_append]
      refine congrArg (fun ps => set ++ q :: ps) (List.filter_congr fun path hpath => ?_)
      have hne : path ≠ q := fun heq => hq (heq ▸ hpath)
      simp [hne]

theorem mergeTypeMetadata_eq_ok {base extending merged : TypeMetadataFormat}
    (h : mergeTypeMetadata base extending = .ok merged) :
    validateExtensions base.claimList extending.claimList = .ok () ∧
      merged.claimList = mergeClaims base.claimList extending.claimList := by
  obtain ⟨claims, hclaims, h⟩ := bind_eq_ok.mp h
  cases h
  split_ifs at hclaims with hsome
  · cases hvalid : validateExtensions base.claimList extending.claimList with
    | error e =>
      rw [hvalid] at hclaims
      cases hclaims
    | ok _ =>
      rw [hvalid] at hclaims
      cases hclaims
      exact ⟨rfl, rfl⟩
  · cases hclaims
    rw [Bool.not_eq_true, Bool.or_eq_false_iff, Option.isSome_eq_false_iff,
      Option.isSome_eq_false_iff, Option.isNone_iff_eq_none, Option.isNone_iff_eq_none] at hsome
    simp [TypeMetadataFormat.claimList, hsome.1, hsome.2, validateExtensions, mergeClaims]

/-- What the merged metadata of a chain has for each path. -/
structure IsMerged (chain : List TypeMetadataFormat) (claims : List Claim) : Prop where
  nodup : (paths claims).Nodup
  order : paths claims = baseFirst chain
  entry : ∀ path, entryAt claims path = declared chain path

theorem isMerged_of_mergeChain {chain : List TypeMetadataFormat} (hn : NoDuplicatePaths chain)
    {merged : TypeMetadataFormat} (h : mergeChain chain = .ok merged) :
    IsMerged chain merged.claimList := by
  induction chain generalizing merged with
  | nil => cases h
  | cons typeMetadata chain ih =>
    obtain ⟨hfirst, hrest⟩ := List.forall_mem_cons.mp hn
    cases chain with
    | nil =>
      cases h
      refine ⟨hfirst, ?_, fun path => ?_⟩
      · have hempty := @pathSet_append [] _ hfirst
        simp only [List.nil_append, pathSet, List.foldl_nil, List.not_mem_nil,
          not_false_eq_true, decide_true, List.filter_true] at hempty
        simp only [baseFirst, List.reverse_singleton, List.flatMap_singleton]
        exact hempty.symm
      · rw [declared, List.findSome?_cons]
        cases entryAt typeMetadata.claimList path <;> rfl
    | cons d chain =>
      obtain ⟨base, hbase, h⟩ := bind_eq_ok.mp h
      obtain ⟨hnodup, horder, hentry⟩ := ih hrest hbase
      obtain ⟨_, hclaims⟩ := mergeTypeMetadata_eq_ok h
      rw [hclaims]
      refine ⟨nodup_mergeClaims hnodup hfirst, ?_, fun path => ?_⟩
      · rw [paths_mergeClaims hnodup hfirst, horder, baseFirst, baseFirst,
          List.reverse_cons (a := typeMetadata), List.flatMap_append, List.flatMap_singleton,
            pathSet_append hfirst]
      · rw [entryAt_mergeClaims hnodup hfirst, hentry, declared, declared,
          List.findSome?_cons (a := typeMetadata)]
        cases entryAt typeMetadata.claimList path <;> rfl

/-! ## Constraints -/

/-- The constraints of an entry are those of another one. -/
structure Keeps (ancestor entry : Claim) : Prop where
  sd : ∀ sd, ancestor.sd = some sd → restricts sd = true → entry.sd = some sd
  mandatory : ancestor.mandatory = some true → entry.mandatory = some true

theorem Keeps.refl (entry : Claim) : Keeps entry entry := ⟨fun _ h _ => h, id⟩

theorem Keeps.trans {c d e : Claim} (h : Keeps c d) (h' : Keeps d e) : Keeps c e :=
  ⟨fun sd hsd hrestricts => h'.sd sd (h.sd sd hsd hrestricts) hrestricts,
    fun hmandatory => h'.mandatory (h.mandatory hmandatory)⟩

/-- An entry has no `sd` where the one that it overrides is always or never disclosable, or is not
mandatory where that one is. -/
def LeavesOut (ancestor entry : Claim) : Prop :=
  (ancestor.sd.any restricts = true ∧ entry.sd = none) ∨
  (ancestor.mandatory = some true ∧ entry.mandatory ≠ some true)

/-- No document of a chain leaves out a constraint of an entry that it overrides. -/
def KeepsConstraints : List TypeMetadataFormat → Prop
  | [] => True
  | typeMetadata :: chain =>
    (∀ entry ∈ typeMetadata.claimList, ∀ ancestor, declared chain entry.path = some ancestor →
      ¬ LeavesOut ancestor entry) ∧
      KeepsConstraints chain

theorem Keeps.not_leavesOut {ancestor entry : Claim} (h : Keeps ancestor entry) :
    ¬ LeavesOut ancestor entry := by
  rintro (⟨hrestricts, hnone⟩ | ⟨hmandatory, hnot⟩)
  · cases hsd : ancestor.sd with
    | none =>
      rw [hsd] at hrestricts
      cases hrestricts
    | some sd =>
      rw [hsd] at hrestricts
      rw [h.sd sd hsd hrestricts] at hnone
      cases hnone
  · exact hnot (h.mandatory hmandatory)

/-- An extension that is valid and leaves nothing out keeps the constraints. -/
theorem keeps_of_validateClaimExtension {ancestor entry : Claim}
    (h : validateClaimExtension ancestor entry = .ok ()) (hkeeps : ¬ LeavesOut ancestor entry) :
    Keeps ancestor entry := by
  rw [LeavesOut, not_or] at hkeeps
  refine ⟨fun sd hsd hrestricts => ?_, fun hmandatory => ?_⟩
  · cases hentry : entry.sd with
    | none => exact absurd ⟨by rw [hsd]; exact hrestricts, hentry⟩ hkeeps.1
    | some sd' =>
      rw [validateClaimExtension, hsd, hentry] at h
      dsimp only at h
      split_ifs at h with hchanges
      by_contra hne
      exact hchanges ⟨hrestricts, fun heq => hne (congrArg some heq.symm)⟩
  · by_contra hnot
    exact hkeeps.2 ⟨hmandatory, hnot⟩

theorem validateClaimExtension_of_validateExtensions {baseClaims extendingClaims : List Claim}
    (h : validateExtensions baseClaims extendingClaims = .ok ()) {entry : Claim}
    (hentry : entry ∈ extendingClaims) {ancestor : Claim}
    (hancestor : entryAt baseClaims entry.path = some ancestor) :
    validateClaimExtension ancestor entry = .ok () := by
  induction extendingClaims with
  | nil => cases hentry
  | cons extendingClaim extendingClaims ih =>
    obtain ⟨_, hfirst, hrest⟩ := bind_eq_ok.mp h
    rcases List.mem_cons.mp hentry with rfl | hentry
    · rw [show baseClaims.find? (fun baseClaim => decide (baseClaim.path = entry.path)) =
        some ancestor from hancestor] at hfirst
      exact hfirst
    · exact ih hrest hentry

/-- The constraints of every entry of a chain are kept by the most derived one for its path. -/
theorem exists_keeps {chain : List TypeMetadataFormat} (hn : NoDuplicatePaths chain)
    {merged : TypeMetadataFormat} (h : mergeChain chain = .ok merged)
    (hkeeps : KeepsConstraints chain) {typeMetadata : TypeMetadataFormat}
    (hmem : typeMetadata ∈ chain) {ancestor : Claim}
    (hancestor : ancestor ∈ typeMetadata.claimList) :
    ∃ entry, declared chain ancestor.path = some entry ∧ Keeps ancestor entry := by
  induction chain generalizing merged with
  | nil => cases hmem
  | cons extending chain ih =>
    obtain ⟨hfirst, hrest⟩ := List.forall_mem_cons.mp hn
    rw [declared, List.findSome?_cons]
    rcases List.mem_cons.mp hmem with rfl | hmem
    · rw [entryAt_of_mem hfirst hancestor]
      exact ⟨ancestor, rfl, .refl ancestor⟩
    · cases chain with
      | nil => cases hmem
      | cons d chain =>
        obtain ⟨base, hbase, h⟩ := bind_eq_ok.mp h
        obtain ⟨hvalid, _⟩ := mergeTypeMetadata_eq_ok h
        obtain ⟨below, hbelow, hkeepsBelow⟩ := ih hrest hbase hkeeps.2 hmem
        cases hentry : entryAt extending.claimList ancestor.path with
        | none => exact ⟨below, hbelow, hkeepsBelow⟩
        | some entry =>
          obtain ⟨hmemEntry, hpath⟩ := mem_of_entryAt hentry
          rw [← hpath] at hbelow
          have hat : entryAt base.claimList entry.path = some below := by
            rw [(isMerged_of_mergeChain hrest hbase).entry, hbelow]
          have hextension := validateClaimExtension_of_validateExtensions hvalid hmemEntry hat
          exact ⟨entry, rfl, hkeepsBelow.trans
            (keeps_of_validateClaimExtension hextension (hkeeps.1 entry hmemEntry below hbelow))⟩

/-! ## Checks -/

/-- How bad a status is. -/
def ClaimStatus.rank : ClaimStatus → ℕ
  | .present => 0
  | .undisclosed => 1
  | .missing => 2

theorem rank_le_missing (status : ClaimStatus) : status.rank ≤ ClaimStatus.missing.rank := by
  cases status <;> decide

theorem rank_eq_missing {status : ClaimStatus} (h : status.rank = ClaimStatus.missing.rank) :
    status = .missing := by
  cases status with
  | missing => rfl
  | present => cases h
  | undisclosed => cases h

theorem rank_combine_mono {α : Type} {f g : α → ClaimStatus} {xs : List α}
    (h : ∀ x ∈ xs, (f x).rank ≤ (g x).rank) :
    (combine (xs.map f)).rank ≤ (combine (xs.map g)).rank := by
  have hmissing : ∀ x ∈ xs, f x = .missing → g x = .missing := by
    intro x hx hf
    have hle := h x hx
    rw [hf] at hle
    cases hg : g x with
    | missing => rfl
    | present => rw [hg] at hle; exact absurd hle (by decide)
    | undisclosed => rw [hg] at hle; exact absurd hle (by decide)
  have hundisclosed : ∀ x ∈ xs, f x = .undisclosed → g x = .undisclosed ∨ g x = .missing := by
    intro x hx hf
    have hle := h x hx
    rw [hf] at hle
    cases hg : g x with
    | missing => exact .inr rfl
    | undisclosed => exact .inl rfl
    | present => rw [hg] at hle; exact absurd hle (by decide)
  rw [combine, combine]
  by_cases hg : ClaimStatus.missing ∈ xs.map g
  · rw [if_pos hg]
    exact rank_le_missing _
  · have hf : ClaimStatus.missing ∉ xs.map f := fun hf => by
      obtain ⟨x, hx, hfx⟩ := List.mem_map.mp hf
      exact hg (List.mem_map.mpr ⟨x, hx, hmissing x hx hfx⟩)
    rw [if_neg hg, if_neg hf]
    split_ifs with hfu hgu
    · exact le_rfl
    · obtain ⟨x, hx, hfx⟩ := List.mem_map.mp hfu
      rcases hundisclosed x hx hfx with hgx | hgx
      · exact absurd (List.mem_map.mpr ⟨x, hx, hgx⟩) hgu
      · exact absurd (List.mem_map.mpr ⟨x, hx, hgx⟩) hg
    · exact Nat.zero_le _
    · exact le_rfl

/-- Metadata that says never wherever other metadata does makes no status better. -/
theorem walk_mono {claims claims' : List Claim}
    (h : ∀ path, sdOf claims path = some .never → sdOf claims' path = some .never)
    (disclosures : DisclosureMap) (before path : ClaimPath) (node : Value) :
    (walk claims disclosures before path node).rank ≤
      (walk claims' disclosures before path node).rank := by
  induction path generalizing before node with
  | nil => exact le_rfl
  | cons segment rest ih =>
    have hcombine := @rank_combine_mono _ (walk claims disclosures (before ++ [segment]) rest)
      (walk claims' disclosures (before ++ [segment]) rest)
        (childEntries node segment disclosures).present
      fun x _ => ih (before ++ [segment]) x
    simp only [walk]
    generalize combine ((childEntries node segment disclosures).present.map
      (walk claims disclosures (before ++ [segment]) rest)) = status at hcombine ⊢
    generalize combine ((childEntries node segment disclosures).present.map
      (walk claims' disclosures (before ++ [segment]) rest)) = status' at hcombine ⊢
    by_cases hmissing' : status' = .missing
    · rw [if_pos hmissing']
      exact rank_le_missing _
    · have hmissing : status ≠ .missing := by
        rintro rfl
        exact hmissing' (rank_eq_missing (le_antisymm (rank_le_missing _) hcombine))
      rw [if_neg hmissing, if_neg hmissing']
      cases segment with
      | none =>
        dsimp only
        split_ifs
        · exact le_rfl
        · exact le_rfl
        · exact hcombine
      | some s =>
        dsimp only
        split_ifs with hpresent hhidden hhidden' hhidden'
        · exact hcombine
        · exact le_rfl
        · exact rank_le_missing _
        · -- Where the other metadata hides nothing, this one does not either.
          refine absurd ?_ hhidden
          simp only [Bool.and_eq_true, decide_eq_true_eq] at hhidden' ⊢
          exact ⟨hhidden'.1, fun hnever => hhidden'.2 (h _ hnever)⟩
        · exact le_rfl

/-- No mandatory claim is missing, and none is disclosed against its metadata. -/
structure TypeMetadataVerificationResult.Conforms (result : TypeMetadataVerificationResult) :
    Prop where
  missing : result.missingMandatoryClaims = []
  notDisclosable : result.invalidNonSelectivelyDisclosableClaims = []
  disclosable : result.invalidSelectivelyDisclosableClaims = []

/-- The constraints of metadata are kept by the entries of other metadata. -/
def KeptBy (claims claims' : List Claim) : Prop :=
  ∀ ancestor ∈ claims, ∃ entry ∈ claims', entry.path = ancestor.path ∧ Keeps ancestor entry

theorem sdOf_never {claims claims' : List Claim} (hn : (paths claims').Nodup)
    (h : KeptBy claims claims') (path : ClaimPath) (hnever : sdOf claims path = some .never) :
    sdOf claims' path = some .never := by
  obtain ⟨ancestor, hancestor, hsd⟩ := Option.bind_eq_some_iff.mp hnever
  have hat : entryAt claims path = some ancestor := hancestor
  obtain ⟨hmem, rfl⟩ := mem_of_entryAt hat
  obtain ⟨entry, hentry, hpath, hkeeps⟩ := h ancestor hmem
  have hat := entryAt_of_mem hn hentry
  rw [hpath] at hat
  exact Option.bind_eq_some_iff.mpr ⟨entry, hat, hkeeps.sd _ hsd rfl⟩

theorem invalidClaims_of_keptBy {claims claims' : List Claim} (h : KeptBy claims claims')
    {sd : ClaimSelectiveDisclosure} (hrestricts : restricts sd = true) {isSd : Bool}
    {presentClaims : List PresentClaim}
    (hempty : invalidClaims sd isSd claims' presentClaims = []) :
    invalidClaims sd isSd claims presentClaims = [] := by
  refine List.eq_nil_iff_forall_not_mem.mpr fun path hpath => ?_
  obtain ⟨⟨ancestor, hancestor, rfl, hsd⟩, hpresent⟩ := mem_invalidClaims.mp hpath
  obtain ⟨entry, hentry, hpath, hkeeps⟩ := h ancestor hancestor
  have hmem : ancestor.path ∈ invalidClaims sd isSd claims' presentClaims :=
    mem_invalidClaims.mpr ⟨⟨entry, hentry, hpath, hkeeps.sd sd hsd hrestricts⟩, hpresent⟩
  rw [hempty] at hmem
  cases hmem

theorem mandatoryClaims_of_keptBy {claims claims' : List Claim} (hn : (paths claims').Nodup)
    (h : KeptBy claims claims') {packedPayload : Value} {disclosures : DisclosureMap}
    (hmissing : mandatoryClaims .missing claims' packedPayload disclosures = []) :
    mandatoryClaims .missing claims packedPayload disclosures = [] ∧
      (mandatoryClaims .undisclosed claims' packedPayload disclosures = [] →
        mandatoryClaims .undisclosed claims packedPayload disclosures = []) := by
  -- A mandatory claim has a status that is at least as bad for the other metadata.
  have hstatus : ∀ path status, path ∈ mandatoryClaims status claims packedPayload disclosures →
      ∃ status', path ∈ mandatoryClaims status' claims' packedPayload disclosures ∧
      status.rank ≤ status'.rank := by
    intro path status hpath
    obtain ⟨ancestor, hancestor, hmandatory, rfl, rfl⟩ := mem_mandatoryClaims.mp hpath
    obtain ⟨entry, hentry, hpath, hkeeps⟩ := h ancestor hancestor
    exact ⟨_, mem_mandatoryClaims.mpr ⟨entry, hentry, hkeeps.mandatory hmandatory, hpath, rfl⟩,
      walk_mono (sdOf_never hn h) disclosures [] ancestor.path packedPayload⟩
  have hnotMissing : ∀ path, path ∉ mandatoryClaims .missing claims' packedPayload disclosures := by
    simp [hmissing]
  constructor
  · refine List.eq_nil_iff_forall_not_mem.mpr fun path hpath => ?_
    obtain ⟨status', hpath', hle⟩ := hstatus path _ hpath
    rw [rank_eq_missing (le_antisymm (rank_le_missing _) hle)] at hpath'
    exact hnotMissing path hpath'
  · intro hundisclosed
    refine List.eq_nil_iff_forall_not_mem.mpr fun path hpath => ?_
    obtain ⟨status', hpath', hle⟩ := hstatus path _ hpath
    cases status' with
    | present => exact absurd hle (by decide)
    | missing => exact hnotMissing path hpath'
    | undisclosed =>
      rw [hundisclosed] at hpath'
      cases hpath'

/-- What is kept of the documents of a chain. -/
structure Inherits (resolved : ResolvedTypeMetadata) : Prop where
  nodup : (paths resolved.mergedTypeMetadata.claimList).Nodup
  order : paths resolved.mergedTypeMetadata.claimList = baseFirst resolved.typeMetadataChain
  mostDerived : ∀ entry ∈ resolved.mergedTypeMetadata.claimList,
    declared resolved.typeMetadataChain entry.path = some entry
  inForce : ∀ typeMetadata ∈ resolved.typeMetadataChain,
    KeptBy typeMetadata.claimList resolved.mergedTypeMetadata.claimList
  noneLeavesOut : resolved.typeMetadataChain.Pairwise fun derived typeMetadata =>
    ∀ entry ∈ derived.claimList, ∀ ancestor ∈ typeMetadata.claimList, entry.path = ancestor.path →
    Keeps ancestor entry
  checks : ∀ typeMetadata ∈ resolved.typeMetadataChain, ∀ packedPayload disclosures result,
    verifyClaimsAgainstTypeMetadata resolved.mergedTypeMetadata packedPayload disclosures =
      some result →
    result.Conforms → ∃ result',
    verifyClaimsAgainstTypeMetadata typeMetadata packedPayload disclosures = some result' ∧
      result'.Conforms ∧ (result.undisclosedMandatoryClaims = [] →
        result'.undisclosedMandatoryClaims = [])

/-- Presentations that pass the checks of metadata that keeps the constraints pass those of the
metadata. -/
theorem conforms_of_keptBy {typeMetadata merged : TypeMetadataFormat}
    (hn : (paths merged.claimList).Nodup) (h : KeptBy typeMetadata.claimList merged.claimList)
    {packedPayload : Value} {disclosures : DisclosureMap} {result : TypeMetadataVerificationResult}
    (hverify : verifyClaimsAgainstTypeMetadata merged packedPayload disclosures = some result)
    (hconforms : result.Conforms) :
    ∃ result', verifyClaimsAgainstTypeMetadata typeMetadata packedPayload disclosures =
      some result' ∧ result'.Conforms ∧
      (result.undisclosedMandatoryClaims = [] → result'.undisclosedMandatoryClaims = []) := by
  obtain ⟨presentClaims, hpresent, hverify⟩ := Option.bind_eq_some_iff.mp hverify
  cases hverify
  obtain ⟨hmissing, hundisclosed⟩ := mandatoryClaims_of_keptBy hn h hconforms.missing
  refine ⟨_, Option.bind_eq_some_iff.mpr ⟨presentClaims, hpresent, rfl⟩,
    ⟨hmissing, ?_, ?_⟩, hundisclosed⟩
  · exact invalidClaims_of_keptBy h rfl hconforms.notDisclosable
  · exact invalidClaims_of_keptBy h rfl hconforms.disclosable

theorem mem_of_declared {chain : List TypeMetadataFormat} {path : ClaimPath} {entry : Claim}
    (h : declared chain path = some entry) :
    ∃ typeMetadata ∈ chain, entry ∈ typeMetadata.claimList ∧ entry.path = path := by
  obtain ⟨typeMetadata, hmem, hentry⟩ := List.exists_of_findSome?_eq_some h
  obtain ⟨hmem', hpath⟩ := mem_of_entryAt hentry
  exact ⟨typeMetadata, hmem, hmem', hpath⟩

/-- A chain in which no entry leaves out a constraint of one that it overrides. -/
theorem keepsConstraints_iff {chain : List TypeMetadataFormat} (hn : NoDuplicatePaths chain)
    {merged : TypeMetadataFormat} (h : mergeChain chain = .ok merged) :
    KeepsConstraints chain ↔ chain.Pairwise fun derived typeMetadata =>
      ∀ entry ∈ derived.claimList, ∀ ancestor ∈ typeMetadata.claimList, entry.path = ancestor.path →
      Keeps ancestor entry := by
  induction chain generalizing merged with
  | nil => exact ⟨fun _ => .nil, fun _ => trivial⟩
  | cons extending chain ih =>
    rw [List.pairwise_cons]
    cases chain with
    | nil => exact ⟨fun _ => ⟨nofun, .nil⟩, fun _ => ⟨nofun, trivial⟩⟩
    | cons d chain =>
      obtain ⟨hfirst, hrest⟩ := List.forall_mem_cons.mp hn
      obtain ⟨base, hbase, h⟩ := bind_eq_ok.mp h
      obtain ⟨hvalid, _⟩ := mergeTypeMetadata_eq_ok h
      rw [← ih hrest hbase]
      constructor
      · rintro ⟨hover, hbelow⟩
        refine ⟨fun typeMetadata hmem entry hentry ancestor hancestor hpath => ?_, hbelow⟩
        obtain ⟨below, hdeclared, hkeeps⟩ := exists_keeps hrest hbase hbelow hmem hancestor
        rw [← hpath] at hdeclared
        have hat : entryAt base.claimList entry.path = some below := by
          rw [(isMerged_of_mergeChain hrest hbase).entry, hdeclared]
        exact hkeeps.trans (keeps_of_validateClaimExtension
          (validateClaimExtension_of_validateExtensions hvalid hentry hat)
            (hover entry hentry below hdeclared))
      · rintro ⟨hover, hbelow⟩
        refine ⟨fun entry hentry ancestor hdeclared => ?_, hbelow⟩
        obtain ⟨typeMetadata, hmem, hancestor, hpath⟩ := mem_of_declared hdeclared
        exact (hover typeMetadata hmem entry hentry ancestor hancestor hpath.symm).not_leavesOut

/-! ## Chains that leave constraints out -/

/-- A claim that is always disclosable and mandatory. -/
def baseType : TypeMetadataFormat where
  vct := "base"
  claims := some [{ path := [some "a"], sd := some .always, mandatory := some true }]

def extendingType (claim : Claim) : TypeMetadataFormat where
  vct := "extending"
  «extends» := some "base"
  claims := some [claim]

def baseFetcher : VctFetcher := fun _ _ => .ok (some baseType)

def resolvedType (claim : Claim) : ResolvedTypeMetadata :=
  ⟨extendingType claim, [extendingType claim, baseType], ["extending", "base"]⟩

/-- An entry with the constraints of the base. -/
def repeatedClaim : Claim :=
  { path := [some "a"], sd := some .always, mandatory := some true, svg_id := some "a" }

/-- An entry without the constraints of the base. -/
def relaxedClaim : Claim := { path := [some "a"] }

end IdentityCommon.SdJwtVc
