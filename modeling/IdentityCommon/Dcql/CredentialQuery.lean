import IdentityCommon.Dcql.ClaimSets

/-!
# Credential queries

`runCredentialQuery` matches each of a list of credentials, or of presentations, with a
credential query: its claims, its metadata and its trusted authorities.

## Main definitions

- `runMetaQuery` — the format, the type and the holder binding of a credential
- `runTrustedAuthoritiesQuery` — the authority of a credential
- `runCredentialQuery` — the credentials that match, and those that do not

## Main results

- `runClaimsQuery_success` — when a credential has a valid claim set
- `reportsValid_selects_iff` — when a claim is reported valid as its path selects
- `exists_of_valid_credential`, `runCredentialQuery_singleton` — the credentials that match
-/

namespace IdentityCommon.Dcql

open Ecma AssocList Value

/-! ## Metadata -/

def CredentialFormat.toText : CredentialFormat → String
  | .mso_mdoc => "mso_mdoc"
  | .vc_sd_jwt => "vc+sd-jwt"
  | .dc_sd_jwt => "dc+sd-jwt"
  | .jwt_vc_json => "jwt_vc_json"
  | .ldp_vc => "ldp_vc"

/-- A value that may be absent, in a template string. -/
def optionText : Option String → String
  | some s => s
  | none => "undefined"

/-- The issues of a member whose value does not match. -/
def zMatch (key : String) (isMatch : Bool) (issue : Issue) : List Issue :=
  if isMatch then [] else [nestedIssue issue [.name key]]

/-- The issue of a missing member. -/
def missingValue (message expected : String) : Issue where
  code := .missing_value
  message := message
  context := some (.missing_value expected)

def zCredentialFormat (format : CredentialFormat) (credential : DcqlCredential) : List Issue :=
  zMatch "credential_format" (credential.credential_format = format) {
    code := .credential_format_mismatch
    message := "Expected credential format to be '" ++ format.toText ++ "' but received '" ++
      credential.credential_format.toText ++ "'"
    context := some (.credential_format format credential.credential_format) }

def getCryptographicHolderBindingValue (credentialQuery : DcqlCredentialQuery)
    (credential : DcqlCredential) : List Issue :=
  if credentialQuery.require_cryptographic_holder_binding then
    zMatch "cryptographic_holder_binding" credential.cryptographic_holder_binding {
      code := .cryptographic_holder_binding_required
      message := "Expected cryptographic_holder_binding to be true (because credential query '" ++
        credentialQuery.id ++ "' requires cryptographic holder binding), but received false" }
  else []

def getMdocMetaParser (credentialQuery : DcqlCredentialQuery) (credential : DcqlCredential) :
    List Issue :=
  getCryptographicHolderBindingValue credentialQuery credential ++
  zCredentialFormat .mso_mdoc credential ++
  match (credentialQuery.meta.bind Meta.doctype_value).filter (· ≠ "") with
  | some doctypeValue => zMatch "doctype" (credential.doctype = some doctypeValue) {
      code := .doctype_mismatch
      message := "Expected doctype to be '" ++ doctypeValue ++ "' but received '" ++
        optionText credential.doctype ++ "'"
      context := some (.doctype doctypeValue credential.doctype) }
  | none => zMatch "doctype" credential.doctype.isSome
      (missingValue "Expected doctype to be defined" "string")

def getSdJwtVcMetaParser (credentialQuery : DcqlCredentialQuery) (credential : DcqlCredential) :
    List Issue :=
  getCryptographicHolderBindingValue credentialQuery credential ++
  zCredentialFormat credentialQuery.format credential ++
  match credentialQuery.meta.bind Meta.vct_values with
  | some vctValues => zMatch "vct" (credential.vct.any (vctValues.contains ·)) {
      code := .vct_mismatch
      message := "Expected vct to be '" ++ "' | '".intercalate vctValues ++ "' but received '" ++
        optionText credential.vct ++ "'"
      context := some (.vct vctValues credential.vct) }
  | none => zMatch "vct" credential.vct.isSome (missingValue "Expected vct to be defined" "string")

def getW3cVcMetaParser (credentialQuery : DcqlCredentialQuery) (credential : DcqlCredential) :
    List Issue :=
  getCryptographicHolderBindingValue credentialQuery credential ++
  zCredentialFormat credentialQuery.format credential ++
  match credentialQuery.meta.bind Meta.type_values with
  | some typeValues => zMatch "type"
      (credential.type.any fun type => typeValues.any fun values => values.all (type.contains ·)) {
      code := .type_mismatch
      message := "Expected type to include all values from one of the following subsets: " ++
        " | ".intercalate (typeValues.map fun values => "[" ++ ", ".intercalate values ++ "]")
      context := some (.type typeValues credential.type) }
  | none => match credential.type with
    | none => [nestedIssue
        (missingValue "Expected input to be an array, but received 'undefined'" "array")
          [.name "type"]]
    | some type => zMatch "type" (!type.isEmpty) {
        code := .empty_array
        message := "Array must be non-empty and have length of at least 1" }

def getMetaParser (credentialQuery : DcqlCredentialQuery) : DcqlCredential → List Issue :=
  match credentialQuery.format with
  | .mso_mdoc => getMdocMetaParser credentialQuery
  | .dc_sd_jwt => getSdJwtVcMetaParser credentialQuery
  | .vc_sd_jwt =>
    -- both a format of W3C credentials and one of SD-JWT credentials
    if (credentialQuery.meta.bind Meta.type_values).isSome then getW3cVcMetaParser credentialQuery
    else getSdJwtVcMetaParser credentialQuery
  | .ldp_vc | .jwt_vc_json => getW3cVcMetaParser credentialQuery

/-- The metadata of a credential, with the member for its type that the query reads. -/
structure MetaOutput where
  credential_format : CredentialFormat
  cryptographic_holder_binding : Bool
  doctype : Option String
  vct : Option String
  type : Option (List String)

inductive DcqlMetaResult
  | success (output : MetaOutput)
  | failure (issues : List Issue)

def DcqlMetaResult.isSuccess : DcqlMetaResult → Bool
  | success _ => true
  | failure _ => false

def runMetaQuery (credentialQuery : DcqlCredentialQuery) (credential : DcqlCredential) :
    DcqlMetaResult :=
  match getMetaParser credentialQuery credential with
  | [] => .success {
      credential_format := credential.credential_format
      cryptographic_holder_binding := credential.cryptographic_holder_binding
      doctype := credential.doctype
      vct := credential.vct
      type := credential.type }
  | issues => .failure issues

theorem getMetaParser_eq (q : DcqlCredentialQuery) : getMetaParser q = getMdocMetaParser q ∨
    getMetaParser q = getSdJwtVcMetaParser q ∨ getMetaParser q = getW3cVcMetaParser q := by
  rw [getMetaParser]
  cases q.format with
  | mso_mdoc => exact .inl rfl
  | dc_sd_jwt => exact .inr (.inl rfl)
  | vc_sd_jwt =>
    by_cases h : (q.meta.bind Meta.type_values).isSome
    · exact .inr (.inr (if_pos h))
    · exact .inr (.inl (if_neg h))
  | ldp_vc | jwt_vc_json => exact .inr (.inr rfl)

/-- The metadata of a credential do not depend on its claims. -/
theorem runMetaQuery_claims (q : DcqlCredentialQuery) (credential : DcqlCredential)
    (claims : List (String × Value)) :
    runMetaQuery q { credential with claims := claims } = runMetaQuery q credential := by
  have h : getMetaParser q { credential with claims := claims } = getMetaParser q credential := by
    obtain h | h | h := getMetaParser_eq q <;> rw [h] <;> rfl
  rw [runMetaQuery, h]
  rfl

theorem zMatch_eq_nil {key : String} {isMatch : Bool} {issue : Issue} :
    zMatch key isMatch issue = [] ↔ isMatch := by
  rw [zMatch]
  split_ifs with h <;> simp [h]

/-- A credential whose metadata match has the format of the credential query. -/
theorem format_of_runMetaQuery {q : DcqlCredentialQuery} {credential : DcqlCredential}
    (h : (runMetaQuery q credential).isSuccess) : credential.credential_format = q.format := by
  have hnil : getMetaParser q credential = [] := by
    unfold runMetaQuery at h
    split at h
    case h_1 hnil => exact hnil
    case h_2 => cases h
  have hformat : zCredentialFormat q.format credential = [] := by
    rw [getMetaParser] at hnil
    cases hf : q.format with
    | mso_mdoc =>
      rw [hf] at hnil
      exact (List.append_eq_nil_iff.mp (List.append_eq_nil_iff.mp hnil).1).2
    | dc_sd_jwt =>
      rw [hf] at hnil
      rw [← hf]
      exact (List.append_eq_nil_iff.mp (List.append_eq_nil_iff.mp hnil).1).2
    | vc_sd_jwt =>
      rw [hf] at hnil
      rw [← hf]
      dsimp only at hnil
      split_ifs at hnil <;> exact (List.append_eq_nil_iff.mp (List.append_eq_nil_iff.mp hnil).1).2
    | ldp_vc | jwt_vc_json =>
      rw [hf] at hnil
      rw [← hf]
      exact (List.append_eq_nil_iff.mp (List.append_eq_nil_iff.mp hnil).1).2
  exact of_decide_eq_true (zMatch_eq_nil.mp hformat)

/-! ## Trusted authorities -/

def TrustedAuthorityType.toText : TrustedAuthorityType → String
  | .aki => "aki"
  | .etsi_tl => "etsi_tl"
  | .openid_federation => "openid_federation"

/-- A trusted authority that a credential has, or the issues. -/
inductive DcqlTrustedAuthorityEntry
  | success (trusted_authority_index : ℕ) (type : TrustedAuthorityType) (value : String)
  | failure (trusted_authority_index : ℕ) (issues : List Issue)

inductive DcqlTrustedAuthoritiesResult
  | success (valid : Option DcqlTrustedAuthorityEntry) (failed : List DcqlTrustedAuthorityEntry)
  | failure (failed : List DcqlTrustedAuthorityEntry)

def DcqlTrustedAuthoritiesResult.isSuccess : DcqlTrustedAuthoritiesResult → Bool
  | success _ _ => true
  | failure _ => false

/-- The type and the first trusted value of an authority, or issues. -/
def getTrustedAuthorityParser (trustedAuthority : TrustedAuthority) :
    Option TrustedAuthority → Except (List Issue) (TrustedAuthorityType × String)
  | none => .error [{
      code := .trusted_authority_mismatch
      message := "Expected trusted authority object with type '" ++ trustedAuthority.type.toText ++
        "' to be defined, but received undefined"
      context := some (.trusted_authority trustedAuthority none) }]
  | some authority =>
    let context := some (.trusted_authority trustedAuthority (some authority))
    let typeIssues := zMatch "type" (authority.type = trustedAuthority.type) {
      code := .trusted_authority_mismatch
      message := "Expected trusted authority type to be '" ++ trustedAuthority.type.toText ++
        "' but received '" ++ authority.type.toText ++ "'"
      context := context }
    match authority.values.find? (trustedAuthority.values.contains ·) with
    | some value => if typeIssues.isEmpty then .ok (authority.type, value) else .error typeIssues
    | none => .error (typeIssues ++ [nestedIssue {
        code := .trusted_authority_mismatch
        message := "Expected one of the trusted authority values to be '" ++
          "' | '".intercalate trustedAuthority.values ++ "' but received '" ++
          "' , '".intercalate authority.values ++ "'"
        context := context } [.name "values"]])

/-- The loop over the trusted authorities from `index` on, after the failed ones. -/
def findTrustedAuthority (authority : Option TrustedAuthority) :
    ℕ → List DcqlTrustedAuthorityEntry → List TrustedAuthority → DcqlTrustedAuthoritiesResult
  | _, failed, [] => .failure failed
  | index, failed, trustedAuthority :: rest =>
    match getTrustedAuthorityParser trustedAuthority authority with
    | .ok (type, value) => .success (some (.success index type value)) failed
    | .error issues => findTrustedAuthority authority (index + 1)
        (failed ++ [.failure index issues]) rest

def runTrustedAuthoritiesQuery (credentialQuery : DcqlCredentialQuery)
    (credential : DcqlCredential) : DcqlTrustedAuthoritiesResult :=
  match credentialQuery.trusted_authorities with
  | none => .success none []
  | some trustedAuthorities => findTrustedAuthority credential.authority 0 [] trustedAuthorities

/-! ## Credentials -/

/-- What a credential query makes of the credential at an index. -/
structure CredentialMatch where
  input_credential_index : ℕ
  trusted_authorities : DcqlTrustedAuthoritiesResult
  claims : DcqlClaimsResult
  «meta» : DcqlMetaResult

def CredentialMatch.success (m : CredentialMatch) : Bool :=
  m.claims.success && m.trusted_authorities.isSuccess && m.meta.isSuccess

/-- The result of a credential query; an empty list is an absent member. -/
structure CredentialQueryResult where
  credential_query_id : String
  valid_credentials : List CredentialMatch
  failed_credentials : List CredentialMatch

def CredentialQueryResult.success (r : CredentialQueryResult) : Bool := !r.valid_credentials.isEmpty

def runCredential (zod : Zod) (credentialQuery : DcqlCredentialQuery) (presentation : Bool)
    (credentialIndex : ℕ) (credential : DcqlCredential) : Except Thrown CredentialMatch := do
  let trustedAuthorityResult := runTrustedAuthoritiesQuery credentialQuery credential
  let claimsResult ← runClaimsQuery zod credentialQuery credential presentation
  let metaResult := runMetaQuery credentialQuery credential
  return ⟨credentialIndex, trustedAuthorityResult, claimsResult, metaResult⟩

def runCredentialQuery (zod : Zod) (credentialQuery : DcqlCredentialQuery)
    (credentials : List DcqlCredential) (presentation : Bool) :
    Except Thrown CredentialQueryResult := do
  let results ← credentials.zipIdx.mapM fun (credential, credentialIndex) =>
    runCredential zod credentialQuery presentation credentialIndex credential
  return {
    credential_query_id := credentialQuery.id
    valid_credentials := results.filter CredentialMatch.success
    failed_credentials := results.filter (!CredentialMatch.success ·) }

/-! ## Results -/

section Claims

variable {zod : Zod} {q : DcqlCredentialQuery} {credential : DcqlCredential} {presentation : Bool}

theorem mem_of_claimsOf {i : Option ℕ} {c : ClaimsQuery} (h : c ∈ q.claimsOf i) :
    c ∈ q.claims.getD [] := by
  cases i with
  | none => exact h
  | some i =>
    obtain ⟨id, -, hfind⟩ := List.mem_filterMap.mp h
    exact List.mem_of_find?_eq_some hfind

/-- No merge throws, unless a claim leads through an inherited `__proto__`. -/
theorem runClaimsQuery_ne_dcqlError {claims : List ClaimsQuery} (hq : q.claims = some claims)
    (hd : (obj credential.claims).Distinct)
    (hg : ∀ c ∈ claims, reachesPrototype presentation c.values c.path
      (.obj credential.claims) = false)
    (e : DcqlError) : runClaimsQuery zod q credential presentation ≠ .error (.dcqlError e) := by
  intro h
  obtain ⟨set, outputs, ⟨-, ho⟩, hm⟩ := satisfied_of_dcqlError hq h
  have hcopy : ∀ o ∈ outputs, isMergeableObject o ∧ Copy .leaves (.obj credential.claims) o := by
    intro o hmem
    obtain ⟨c, hc, hco⟩ := Except.exists_of_forall₂ ho.flip hmem
    have hc : c ∈ claims := by simpa [hq] using mem_of_claimsOf hc
    exact ⟨IsOutput.isMergeableObject hco, IsOutput.copy hd hco (Slack.covers_leaves (hg c hc))⟩
  have hempty : Copy .leaves (.obj credential.claims) (head (.obj [])) := .empty .leaves rfl
  obtain ⟨out, hout⟩ := exists_foldl Slack.flat_leaves hcopy hempty
  cases hm.symm.trans hout

/-- A set of claims that are all accepted makes the claims query a success, when no claim throws or
leads through an inherited `__proto__`. -/
theorem runClaimsQuery_success (hd : (obj credential.claims).Distinct)
    (hr : ∀ c ∈ q.claims.getD [], raises zod presentation c.values c.path
      (.obj credential.claims) = false)
    (hg : ∀ c ∈ q.claims.getD [], reachesPrototype presentation c.values c.path
      (.obj credential.claims) = false)
    (hset : q.claims.isSome → ∃ set ∈ q.claimSetEntries, ∀ c ∈ q.claimsOf set.1,
      accepts presentation c.values c.path (.obj credential.claims)) :
    ∃ r, runClaimsQuery zod q credential presentation = .ok r ∧ r.success := by
  cases hq : q.claims with
  | none => exact ⟨_, runClaimsQuery_of_none hq, rfl⟩
  | some claims =>
    simp only [hq, Option.getD_some, Option.isSome_some, true_implies] at hr hg hset
    obtain ⟨set, hmem, hacc⟩ := hset
    obtain ⟨r, hrun, s, hs, -⟩ :=
      valid_of_accepts hq hr (runClaimsQuery_ne_dcqlError hq hd hg) hmem hacc
    refine ⟨r, hrun, ?_⟩
    rw [DcqlClaimsResult.success, Bool.not_eq_true', List.isEmpty_eq_false_iff]
    exact List.ne_nil_of_mem hs

/-! ## A single claim -/

/-- The result has an entry for the valid claim at the index. -/
def ReportsValid (zod : Zod) (q : DcqlCredentialQuery) (credential : DcqlCredential)
    (claimIndex : ℕ) : Prop :=
  ∃ r, runClaimsQuery zod q credential false = .ok r ∧
  ∃ claim ∈ r.valid_claims, claim.claim_index = claimIndex

/-- The valid claims of the entries are those that the parser accepts. -/
theorem mem_lefts_entries {claims : List ClaimsQuery} {entries : List ClaimEntry} {c : ClaimsQuery}
    {i : ℕ} {v : Value} (h : (claims.zipIdx.mapM fun (claimQuery, claimIndex) =>
      runClaim zod presentation v claimIndex claimQuery) = .ok entries) (hi : claims[i]? = some c) :
    (∃ claim ∈ lefts entries, claim.claim_index = i) ↔ accepts presentation c.values c.path v := by
  constructor
  · rintro ⟨claim, hclaim, rfl⟩
    obtain ⟨entry, hentry, hleft⟩ := List.mem_filterMap.mp hclaim
    obtain ⟨n, hn⟩ := List.mem_iff_getElem?.mp hentry
    obtain ⟨⟨c', i'⟩, hzip, hrun⟩ := (Except.getElem?_mapM h).mp hn
    obtain ⟨payload, hp, he⟩ := runClaim_ok hrun
    obtain rfl : entry = .inl claim := Sum.getLeft?_eq_some_iff.mp hleft
    by_cases hs : payload.success
    · rw [if_pos hs] at he
      cases he
      have hc : claims[i']? = some c' := List.mem_zipIdx_iff_getElem?.mp (List.mem_of_getElem? hzip)
      obtain rfl : c = c' := Option.some.inj (hi.symm.trans hc)
      rw [← c.success_eq hp, hs]
    · rw [if_neg hs] at he
      cases he
  · intro hacc
    have hmem : (c, i) ∈ claims.zipIdx := List.mem_zipIdx_iff_getElem?.mpr hi
    obtain ⟨entry, hrun⟩ := Except.exists_of_mapM h hmem
    obtain ⟨payload, hp, rfl⟩ := runClaim_ok hrun
    have hs : payload.success := by rw [c.success_eq hp, hacc]
    rw [if_pos hs] at hrun
    obtain ⟨n, hn⟩ := List.mem_iff_getElem?.mp hmem
    have hentry := (Except.getElem?_mapM h).mpr ⟨(c, i), hn, hrun⟩
    exact ⟨_, List.mem_filterMap.mpr ⟨_, List.mem_of_getElem? hentry, rfl⟩, rfl⟩

/-- No merge throws in a query with one claim. -/
theorem runClaimsQuery_ne_dcqlError_of_singleton {c : ClaimsQuery} (hq : q.claims = some [c])
    (hd : (obj credential.claims).Distinct) (e : DcqlError) :
    runClaimsQuery zod q credential presentation ≠ .error (.dcqlError e) := by
  intro h
  obtain ⟨set, outputs, ⟨-, ho⟩, hm⟩ := satisfied_of_dcqlError hq h
  have houtput : ∀ o ∈ outputs, IsOutput zod presentation (.obj credential.claims) c o := by
    intro o hmem
    obtain ⟨c', hc, hco⟩ := Except.exists_of_forall₂ ho.flip hmem
    have hc : c' ∈ [c] := by simpa [hq] using mem_of_claimsOf hc
    rwa [List.mem_singleton.mp hc] at hco
  cases outputs with
  | nil => cases hm
  | cons o outputs =>
    obtain ⟨payload, hp, hs, rfl⟩ := houtput o (List.mem_cons_self ..)
    -- every output is the one of the claim
    obtain ⟨out, hout, -⟩ := mergeOutputs_copies (c.output_obj hp hs) fun o hmem => by
      obtain ⟨payload', hp', hs', rfl⟩ := houtput o hmem
      obtain rfl : payload = payload' := Except.ok.inj (hp.symm.trans hp')
      exact ⟨isMergeableObject_of_head (c.output_obj hp hs),
        .refl .tight (c.output_distinct hd hp hs)⟩
    cases hm.symm.trans hout

/-- When a claim is reported valid: no parser throws, and its parser accepts the claims. -/
theorem reportsValid_iff {claims : List ClaimsQuery} {c : ClaimsQuery} {i : ℕ}
    (hq : q.claims = some claims) (hi : claims[i]? = some c) (hd : (obj credential.claims).Distinct)
    (hm : claims = [c] ∨ ∀ claim ∈ claims,
      reachesPrototype false claim.values claim.path (.obj credential.claims) = false) :
    ReportsValid zod q credential i ↔
      (∀ claim ∈ claims, raises zod false claim.values claim.path
        (.obj credential.claims) = false) ∧
        accepts false c.values c.path (.obj credential.claims) := by
  by_cases hr : ∃ claim ∈ claims, raises zod false claim.values claim.path (.obj credential.claims)
  · refine iff_of_false ?_ fun h => ?_
    · rintro ⟨r, hrun, -⟩
      rw [runClaimsQuery_raises hq hr] at hrun
      cases hrun
    · obtain ⟨claim, hclaim, hraises⟩ := hr
      rw [h.1 claim hclaim] at hraises
      cases hraises
  · have hr' : ∀ claim ∈ claims, raises zod false claim.values claim.path
        (.obj credential.claims) = false := by
      simpa using hr
    have hmerge : ∀ e, runClaimsQuery zod q credential false ≠ .error (.dcqlError e) := by
      rcases hm with rfl | hm
      · exact runClaimsQuery_ne_dcqlError_of_singleton hq hd
      · exact runClaimsQuery_ne_dcqlError hq hd hm
    obtain ⟨entries, sets, hmap, -, hrun⟩ := runClaimsQuery_eq_ok hq hr' hmerge
    rw [and_iff_right hr', ← mem_lefts_entries hmap hi]
    simp [ReportsValid, hrun]

/-- Whether the evaluation of a claim of a query agrees with the path of the claim. Where the path
selects an allowed element, no element that the evaluation of a claim reaches before it must be
reported may lack a text, so that reporting it throws. Where the path selects none, it must not be
vacuous, unless the evaluation of a claim throws. -/
def EvaluatesPath (zod : Zod) (claims : List ClaimsQuery) (c : ClaimsQuery) (v : Value) : Prop :=
  (Selects c.values c.path v →
    ∀ claim ∈ claims, raises zod false claim.values claim.path v = false) ∧
  (¬ Selects c.values c.path v →
    (∃ claim ∈ claims, raises zod false claim.values claim.path v) ∨
      reachesVacuous c.values c.path v = false)

/-- Evaluation of a claims path. A claim of a query is reported valid exactly when its path selects
an allowed element, if and only if `EvaluatesPath` holds. Of several claims none leads through an
inherited `__proto__`. -/
theorem reportsValid_selects_iff (zod : Zod) (q : DcqlCredentialQuery) (claims : List ClaimsQuery)
    (c : ClaimsQuery) (i : ℕ) (credential : DcqlCredential) (hq : q.claims = some claims)
    (hi : claims[i]? = some c) (hj : (obj credential.claims).IsJson)
    (hm : claims = [c] ∨ ∀ claim ∈ claims,
      reachesPrototype false claim.values claim.path (.obj credential.claims) = false) :
    (ReportsValid zod q credential i ↔ Selects c.values c.path (obj credential.claims)) ↔
      EvaluatesPath zod claims c (obj credential.claims) := by
  have hraises : (∃ claim ∈ claims, raises zod false claim.values claim.path
      (obj credential.claims)) ↔
      ¬ ∀ claim ∈ claims, raises zod false claim.values claim.path (obj credential.claims) =
        false := by simp
  rw [reportsValid_iff hq hi hj.distinct hm, accepts_iff, EvaluatesPath, hraises,
    ← Bool.not_eq_true (reachesVacuous _ _ _)]
  tauto

/-- The second line of an address, in a query that asks for the address as well. -/
theorem reportsValid_lines :
    (ReportsValid ⟨true⟩ addressQuery
        (sdJwtCredential [("address", .obj [("lines", .arr [.str "a", .str "b"])])]) 1 ↔
      Selects none [.name "address", .name "lines", .index 1]
        (.obj [("address", .obj [("lines", .arr [.str "a", .str "b"])])])) ↔
      EvaluatesPath ⟨true⟩ [.json { path := [.name "address"] },
          .json { path := [.name "address", .name "lines", .index 1] }]
        (.json { path := [.name "address", .name "lines", .index 1] })
        (.obj [("address", .obj [("lines", .arr [.str "a", .str "b"])])]) :=
  reportsValid_selects_iff ⟨true⟩ addressQuery _
    (.json { path := [.name "address", .name "lines", .index 1] }) 1
    (sdJwtCredential [("address", .obj [("lines", .arr [.str "a", .str "b"])])]) rfl rfl
      (.of_isJson (by decide))
    (.inr (by decide))

/-- The nationalities of a credential that has none are reported valid all the same. -/
theorem reportsValid_no_nationality :
    ReportsValid ⟨true⟩ (singleClaimQuery { path := [.name "nationalities", .null] })
        (sdJwtCredential [("nationalities", .arr [])]) 0 ∧
      ¬ Selects none [.name "nationalities", .null] (.obj [("nationalities", .arr [])]) := by
  refine ⟨⟨_, rfl, _, List.mem_singleton_self _, rfl⟩, ?_⟩
  simp [Selects, select]

end Claims

section Credentials

variable {zod : Zod} {q : DcqlCredentialQuery} {presentation : Bool}

theorem runCredential_eq_ok {i : ℕ} {credential : DcqlCredential} {m : CredentialMatch} :
    runCredential zod q presentation i credential = .ok m ↔
      ∃ r, runClaimsQuery zod q credential presentation = .ok r ∧
        m = ⟨i, runTrustedAuthoritiesQuery q credential, r, runMetaQuery q credential⟩ := by
  rw [runCredential, Except.bind_eq_ok]
  refine exists_congr fun r => and_congr_right fun _ => ⟨fun h => ?_, fun h => h ▸ rfl⟩
  exact (Except.ok.inj h).symm

/-- A valid credential of the result is one of the credentials, and matches the query. -/
theorem exists_of_valid_credential {credentials : List DcqlCredential}
    {item : CredentialQueryResult}
    (h : runCredentialQuery zod q credentials presentation = .ok item) {m : CredentialMatch}
    (hm : m ∈ item.valid_credentials) :
    ∃ credential, credentials[m.input_credential_index]? = some credential ∧
      runClaimsQuery zod q credential presentation = .ok m.claims ∧ m.claims.success ∧
      (runTrustedAuthoritiesQuery q credential).isSuccess ∧
      (runMetaQuery q credential).isSuccess := by
  obtain ⟨results, hresults, h⟩ := Except.bind_eq_ok.mp h
  cases h
  obtain ⟨hm, hs⟩ := List.mem_filter.mp hm
  obtain ⟨n, hn⟩ := List.mem_iff_getElem?.mp hm
  obtain ⟨⟨credential, i⟩, hmem, hrun⟩ := (Except.getElem?_mapM hresults).mp hn
  obtain ⟨r, hr, rfl⟩ := runCredential_eq_ok.mp hrun
  simp only [CredentialMatch.success, Bool.and_eq_true] at hs
  exact ⟨credential, List.mem_zipIdx_iff_getElem?.mp (List.mem_of_getElem? hmem), hr,
    hs.1.1, hs.1.2, hs.2⟩

/-- A single credential that matches is valid. -/
theorem runCredentialQuery_singleton {credential : DcqlCredential} {r : DcqlClaimsResult}
    (hr : runClaimsQuery zod q credential presentation = .ok r) (hs : r.success)
    (ht : (runTrustedAuthoritiesQuery q credential).isSuccess)
    (hm : (runMetaQuery q credential).isSuccess) :
    ∃ item, runCredentialQuery zod q [credential] presentation = .ok item ∧
      item.credential_query_id = q.id ∧ item.success ∧ item.failed_credentials = [] := by
  let m : CredentialMatch :=
    ⟨0, runTrustedAuthoritiesQuery q credential, r, runMetaQuery q credential⟩
  have hrun : runCredential zod q presentation 0 credential = .ok m :=
    runCredential_eq_ok.mpr ⟨r, hr, rfl⟩
  have hsucc : m.success := by simp [m, CredentialMatch.success, hs, ht, hm]
  refine ⟨⟨q.id, [m], []⟩, ?_, rfl, rfl, rfl⟩
  simp [runCredentialQuery, List.zipIdx, hrun, hsucc, bind, Except.bind, pure, Except.pure]

theorem runCredentialQuery_error {credential : DcqlCredential} {e : Thrown}
    (h : runClaimsQuery zod q credential presentation = .error e) :
    runCredentialQuery zod q [credential] presentation = .error e := by
  simp [runCredentialQuery, runCredential, h, bind, Except.bind]

end Credentials

end IdentityCommon.Dcql
