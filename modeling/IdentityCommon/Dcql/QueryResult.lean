import IdentityCommon.Dcql.Compact

/-!
# Results of queries and presentations

A wallet runs a query over its credentials, and a verifier over the presentations it receives.

## Main definitions

- `runDcqlQuery` — the credentials that match a query
- `fromDcqlPresentation` — whether presentations satisfy a query
- `Choice`, `Chooses` — what a wallet chooses from the result of a query

## Main results

- `Choice.Valid.runClaimsQuery` — the credential of a choice matches its credential query
- `Choice.Valid.exists_item` — its presentation matches as well, when its claims select elements and
  none throws
- `Choice.Separate.findsAll` — only then, where the claims are in different members
- `satisfies_iff` — when the presentations of a choice satisfy the query
-/

namespace IdentityCommon.Dcql

open Ecma AssocList Value

/-! ## Credential sets -/

/-- A credential set with the options that match; an empty list is an absent member. -/
structure CredentialSetResult where
  options : List (List String)
  required : Bool
  matching_options : List (List String)

def runCredentialSet (succeeded : String → Bool) (set : CredentialSetQuery) :
    CredentialSetResult where
  options := set.options
  required := set.required
  matching_options := set.options.filter fun option => option.all succeeded

/-- The required credential sets match; without credential sets, every credential query does. -/
def setsMatch (credentials : List DcqlCredentialQuery) (succeeded : String → Bool) :
    Option (List CredentialSetResult) → Bool
  | some sets => sets.all fun set => !set.required || !set.matching_options.isEmpty
  | none => credentials.all fun credentialQuery => succeeded credentialQuery.id

/-! ## Running a query -/

structure DcqlQueryResult where
  query : DcqlQuery
  can_be_satisfied : Bool
  credential_matches : List (String × CredentialQueryResult)
  credential_sets : Option (List CredentialSetResult)

/-- The results of the credential queries, by their ids. -/
def credentialQueriesResults (zod : Zod) (dcqlQuery : DcqlQuery) (credentials : List DcqlCredential)
    (presentation : Bool) : Except Thrown (List (String × CredentialQueryResult)) :=
  dcqlQuery.credentials.mapM fun credentialQuery => do
    let result ← runCredentialQuery zod credentialQuery credentials presentation
    return (credentialQuery.id, result)

/-- `credential_sets` only has ids of credential queries, so that each has a result. -/
def runDcqlQuery (zod : Zod) (dcqlQuery : DcqlQuery) (credentials : List DcqlCredential)
    (presentation : Bool) : Except Thrown DcqlQueryResult := do
  let results ← credentialQueriesResults zod dcqlQuery credentials presentation
  let succeeded id := (results.lookup id).any CredentialQueryResult.success
  let credentialSetResults := dcqlQuery.credential_sets.map (List.map (runCredentialSet succeeded))
  return {
    query := dcqlQuery
    can_be_satisfied := setsMatch dcqlQuery.credentials succeeded credentialSetResults
    credential_matches := results
    credential_sets := credentialSetResults }

/-! ## Presentations -/

/-- One presentation, or an array of presentations. -/
inductive Presentations
  | single (presentation : DcqlCredential)
  | array (presentations : List DcqlCredential)

def Presentations.toList : Presentations → List DcqlCredential
  | single presentation => [presentation]
  | array presentations => presentations

structure DcqlPresentationResult where
  can_be_satisfied : Bool
  credential_sets : Option (List CredentialSetResult)
  credential_matches : List (String × CredentialQueryResult)

/-- The result of the credential query with an id for its presentations. -/
def presentationsResult (zod : Zod) (dcqlQuery : DcqlQuery) (credentialQueryId : String)
    (presentations : Presentations) : Except Thrown CredentialQueryResult :=
  match dcqlQuery.credentials.find? (·.id = credentialQueryId) with
  | none => .error (.presentationResultError
      ("Query " ++ credentialQueryId ++
        " not found in the dcql query. Cannot validate presentation."))
  | some credentialQuery =>
    match presentations with
    | .array [] => .error (.presentationResultError ("Query credential '" ++ credentialQueryId ++
        "' is present in the presentations but the value is an empty array. " ++
        "Each entry must at least provide one presentation."))
    | .array (p₁ :: p₂ :: rest) =>
      if !credentialQuery.multiple then
        .error (.presentationResultError ("Query credential '" ++ credentialQueryId ++
          "' has not enabled 'multiple', but multiple presentations were provided. " ++
          "Only a single presentation is allowed for each query credential when 'multiple' " ++
          "is not enabled on the query."))
      else runCredentialQuery zod credentialQuery (p₁ :: p₂ :: rest) true
    | _ => runCredentialQuery zod credentialQuery presentations.toList true

/-- Whether the presentations, by the ids of credential queries, satisfy the query. -/
def fromDcqlPresentation (zod : Zod) (dcqlPresentation : List (String × Presentations))
    (dcqlQuery : DcqlQuery) : Except Thrown DcqlPresentationResult := do
  let queriesResults ← dcqlPresentation.mapM fun (credentialQueryId, presentations) =>
    presentationsResult zod dcqlQuery credentialQueryId presentations
  let succeeded id := (queriesResults.find? (·.credential_query_id = id)).any
    CredentialQueryResult.success
  let credentialSetResults := dcqlQuery.credential_sets.map (List.map (runCredentialSet succeeded))
  return {
    -- all presentations have to match, and also what the query requires
    can_be_satisfied :=
      queriesResults.all (fun result => result.success && result.failed_credentials.isEmpty) &&
      setsMatch dcqlQuery.credentials succeeded credentialSetResults
    credential_sets := credentialSetResults
    credential_matches := queriesResults.map fun result => (result.credential_query_id, result) }

/-! ## The choice of a wallet -/

/-- A credential that is chosen for a credential query, with one of its valid claim sets. -/
structure Choice where
  query : DcqlCredentialQuery
  credential : DcqlCredential
  claimSet : ClaimSetSuccess

/-- The members of an object. -/
def objectMembers : Value → List (String × Value)
  | .obj members => members
  | _ => []

namespace Choice

/-- The presentation of the credential, with the output of the claim set as its claims. -/
def present (c : Choice) : DcqlCredential :=
  { c.credential with claims := objectMembers (compact c.claimSet.output) }

/-- The result of the query reports the credential and the claim set as valid. -/
structure Valid (r : DcqlQueryResult) (credentials : List DcqlCredential) (c : Choice) : Prop where
  query_mem : c.query ∈ r.query.credentials
  reported : ∃ item, r.credential_matches.lookup c.query.id = some item ∧
    ∃ m ∈ item.valid_credentials, credentials[m.input_credential_index]? = some c.credential ∧
      c.claimSet ∈ m.claims.valid_claim_sets

/-- Every claim of the claim set selects an element of the credential. -/
def SelectsAll (c : Choice) : Prop :=
  ∀ claim ∈ c.query.claimsOf c.claimSet.claim_set_index, Selects claim.values claim.path
    (.obj c.credential.claims)

/-- No claim of the credential query leads through an inherited `__proto__` on the presentation. -/
def AvoidsPrototype (c : Choice) : Prop :=
  ∀ claim ∈ c.query.claims.getD [], reachesPrototype true claim.values claim.path
    (.obj c.present.claims) = false

/-- Every claim of the credential query finds something in the credential. -/
def FindsAll (c : Choice) : Prop :=
  ∀ claim ∈ c.query.claims.getD [], finds claim.values claim.path (.obj c.credential.claims)

/-- The credential query has no claim sets, and its claims are in different members. -/
structure Separate (c : Choice) : Prop where
  claim_sets : c.query.claim_sets = none
  nodup : ((c.query.claims.getD []).map (·.path.head?)).Nodup

/-- Evaluating some claim of the credential query on the presentation throws. -/
def Raises (zod : Zod) (c : Choice) : Prop :=
  ∃ claim ∈ c.query.claims.getD [], raises zod true claim.values claim.path (.obj c.present.claims)

end Choice

/-- The ids are those of one matching option for each required credential set; without credential
sets, those of all credential queries. -/
def Chooses (r : DcqlQueryResult) (ids : List String) : Prop :=
  match r.credential_sets with
  | none => ∀ id, id ∈ ids ↔ ∃ q ∈ r.query.credentials, q.id = id
  | some sets => ∃ options : List (List String),
      List.Forall₂ (fun set option => option ∈ set.matching_options)
        (sets.filter (·.required)) options ∧
      ∀ id, id ∈ ids ↔ ∃ option ∈ options, id ∈ option

/-- A choice for every chosen credential query, and its presentations. -/
structure Answers (r : DcqlQueryResult) (credentials : List DcqlCredential) (choices : List Choice)
    (dcqlPresentation : List (String × Presentations)) : Prop where
  valid : ∀ c ∈ choices, c.Valid r credentials
  nodup : (choices.map (·.query.id)).Nodup
  chooses : Chooses r (choices.map (·.query.id))
  presentations : List.Forall₂ (fun c entry => entry.1 = c.query.id ∧ entry.2.toList = [c.present])
    choices dcqlPresentation

/-! ## A single choice -/

section Choice

variable {zod : Zod} {q : DcqlQuery} {credentials : List DcqlCredential}
    {r : DcqlQueryResult} {c : Choice}

theorem runDcqlQuery_eq_ok {presentation : Bool}
    (h : runDcqlQuery zod q credentials presentation = .ok r) :
    r.query = q ∧ credentialQueriesResults zod q credentials presentation =
      .ok r.credential_matches ∧
      r.credential_sets = q.credential_sets.map (List.map (runCredentialSet fun id =>
        (r.credential_matches.lookup id).any CredentialQueryResult.success)) := by
  obtain ⟨results, hresults, h⟩ := Except.bind_eq_ok.mp h
  cases h
  exact ⟨rfl, hresults, rfl⟩

/-- The result under the id of a credential query is the one of that query. -/
theorem runCredentialQuery_of_lookup {presentation : Bool}
    {matches' : List (String × CredentialQueryResult)}
    (h : credentialQueriesResults zod q credentials presentation = .ok matches')
    {query : DcqlCredentialQuery} (hq : query ∈ q.credentials) {item : CredentialQueryResult}
    (hl : matches'.lookup query.id = some item) :
    runCredentialQuery zod query credentials presentation = .ok item := by
  obtain ⟨n, hn⟩ := List.mem_iff_getElem?.mp (mem_of_lookup hl)
  obtain ⟨query', hmem, hrun⟩ := (Except.getElem?_mapM h).mp hn
  obtain ⟨item', hitem, heq⟩ := Except.bind_eq_ok.mp hrun
  obtain ⟨hid, rfl⟩ := Prod.mk.inj (Except.ok.inj heq)
  obtain rfl : query' = query :=
    List.inj_on_of_nodup_map q.credentials_nodup (List.mem_of_getElem? hmem) hq hid
  exact hitem

/-- The credential of a valid choice matches the credential query, with the claim set. -/
theorem Choice.Valid.exists_result (hr : runDcqlQuery zod q credentials false = .ok r)
    (h : c.Valid r credentials) :
    c.query ∈ q.credentials ∧ c.credential ∈ credentials ∧
    (∃ result, runClaimsQuery zod c.query c.credential false = .ok result ∧
      c.claimSet ∈ result.valid_claim_sets) ∧
    (runTrustedAuthoritiesQuery c.query c.credential).isSuccess ∧
    (runMetaQuery c.query c.credential).isSuccess := by
  obtain ⟨hquery, hmatches, -⟩ := runDcqlQuery_eq_ok hr
  obtain ⟨hmem, item, hitem, m, hm, hcred, hset⟩ := h
  rw [hquery] at hmem
  obtain ⟨credential, hcred', hclaims, -, ht, hmeta⟩ :=
    exists_of_valid_credential (runCredentialQuery_of_lookup hmatches hmem hitem) hm
  obtain rfl : credential = c.credential := Option.some.inj (hcred'.symm.trans hcred)
  exact ⟨hmem, List.mem_of_getElem? hcred, ⟨m.claims, hclaims, hset⟩, ht, hmeta⟩

/-- A claim of an mdoc has a path of two names, and is not vacuous where it selects an element. -/
theorem reachesVacuous_of_isMdoc {claim : ClaimsQuery} {v : Value} (hm : claim.isMdoc)
    (h : Selects claim.values claim.path v) : reachesVacuous claim.values claim.path v = false := by
  have hnames : ∀ (values : Option (List ClaimValue)) (k k' : String),
      Selects values [.name k, .name k'] v →
      reachesVacuous values [.name k, .name k'] v = false := by
    intro values k k' h
    obtain ⟨p, hp⟩ := selects_iff_matched.mp h
    obtain ⟨w, hsel, -⟩ := id hp
    obtain ⟨members, rfl⟩ := obj_of_select hsel
    cases hk : members.lookup k with
    | none => exact absurd h (not_selects_name hk)
    | some x =>
      obtain ⟨p', -, w', hsel', -⟩ := (matched_name hk).mp hp
      obtain ⟨members', rfl⟩ := obj_of_select hsel'
      cases hk' : members'.lookup k' with
      | none => exact absurd ((selects_name hk).mp h) (not_selects_name hk')
      | some x' => simp [reachesVacuous, hk, hk']
  cases claim with
  | json claim => cases hm
  | mdocPath claim => exact hnames _ _ _ h
  | mdocNamespace claim => exact hnames _ _ _ h

/-- What the output of a claim set is whose claims select elements: a copy of the claims, with some
slack, in which every claim discloses what it matches. -/
theorem output_of_valid {g : Slack} {query : DcqlCredentialQuery} {credential : DcqlCredential}
    {result : DcqlClaimsResult} {claimSet : ClaimSetSuccess} (hd : (obj credential.claims).Distinct)
    (hrun : runClaimsQuery zod query credential false = .ok result)
    (hset : claimSet ∈ result.valid_claim_sets)
    (hg : ∀ claim ∈ query.claimsOf claimSet.claim_set_index,
      g.Covers false claim.values claim.path (.obj credential.claims)) :
    Copy g (.obj credential.claims) claimSet.output ∧ claimSet.output.Distinct ∧
    (query.claims.isSome → ∃ ids, (claimSet.claim_set_index, ids) ∈ query.claimSetEntries) ∧
    ∀ claim ∈ query.claimsOf claimSet.claim_set_index, ∀ p,
      Matched claim.values claim.path (.obj credential.claims) p → Discloses claimSet.output p := by
  have hempty : Copy g (.obj credential.claims) (head (.obj [])) := .empty g rfl
  have hnil : (obj []).Distinct := .obj List.nodup_nil (by simp)
  cases hq : query.claims with
  | none =>
    rw [runClaimsQuery_of_none hq] at hrun
    cases hrun
    obtain rfl := List.mem_singleton.mp hset
    refine ⟨hempty, hnil, nofun, fun claim hc => ?_⟩
    rw [claimsOf_of_none hq] at hc
    cases hc
  | some claims =>
    obtain ⟨ids, outputs, ⟨hentry, ho⟩, hm⟩ := satisfied_of_valid hq hrun hset
    have hcopy : ∀ o ∈ outputs, Copy g (.obj credential.claims) o := by
      intro o hmem
      obtain ⟨claim, hc, hco⟩ := Except.exists_of_forall₂ ho.flip hmem
      exact IsOutput.copy hd hco (hg claim hc)
    have hdist : ∀ o ∈ outputs, o.Distinct := by
      intro o hmem
      obtain ⟨claim, -, payload, hp, hs, rfl⟩ := Except.exists_of_forall₂ ho.flip hmem
      exact claim.output_distinct hd hp hs
    obtain ⟨hc, hdis⟩ := foldl_discloses hcopy hempty hm
    refine ⟨hc, distinct_mergeOutputs hdist hnil hm, fun _ => ⟨ids, hentry⟩,
      fun claim hclaim p hp => ?_⟩
    obtain ⟨o, hmem, payload, hpar, hs, rfl⟩ := Except.exists_of_forall₂ ho hclaim
    obtain ⟨w, hw, -⟩ := discloses_of_matched hp
    exact (hdis p (by rw [hw]; rfl)).mpr (.inr ⟨_, hmem, claim.output_discloses hpar hs hp⟩)

theorem present_claims (h : ∃ members, c.claimSet.output = obj members) :
    Value.obj c.present.claims = compact c.claimSet.output := by
  obtain ⟨members, hout⟩ := h
  rw [Choice.present, hout, compact_obj]
  rfl

theorem Copy.exists_obj {g : Slack} {members : List (String × Value)} {out : Value}
    (h : Copy g (obj members) out) :
    ∃ members', out = obj members' := by
  cases h with
  | node hh => exact obj_of_head_eq hh

/-- The slack that the claims of a choice need. -/
theorem Choice.Valid.covers (hr : runDcqlQuery zod q credentials false = .ok r)
    (hj : ∀ credential ∈ credentials, credential.credential_format ≠ .mso_mdoc →
      (obj credential.claims).IsJson)
    (h : c.Valid r credentials) (hs : c.SelectsAll) :
    ∀ claim ∈ c.query.claimsOf c.claimSet.claim_set_index,
      (Slack.all (obj c.credential.claims).IsJson).Covers false claim.values claim.path
        (.obj c.credential.claims) := by
  obtain ⟨-, hmem, -, -, hmeta⟩ := h.exists_result hr
  intro claim hc
  refine Slack.covers_all id fun hv => hj _ hmem fun hmdoc => ?_
  obtain ⟨claims, hclaims⟩ : ∃ claims, c.query.claims = some claims := by
    cases hq : c.query.claims with
    | none => rw [claimsOf_of_none hq] at hc; cases hc
    | some claims => exact ⟨claims, rfl⟩
  have hin : claim ∈ claims := by simpa [hclaims] using mem_of_claimsOf hc
  have hisMdoc : claim.isMdoc := by
    rw [c.query.claims_format claims hclaims claim hin, ← format_of_runMetaQuery hmeta, hmdoc]
    rfl
  rw [reachesVacuous_of_isMdoc hisMdoc (hs claim hc)] at hv
  cases hv

/-- The presentation of a valid choice whose claims select elements matches the credential query,
when no claim throws on it. -/
theorem Choice.Valid.exists_item (hr : runDcqlQuery zod q credentials false = .ok r)
    (hd : ∀ credential ∈ credentials, (obj credential.claims).Distinct)
    (hj : ∀ credential ∈ credentials, credential.credential_format ≠ .mso_mdoc →
      (obj credential.claims).IsJson)
    (h : c.Valid r credentials) (hs : c.SelectsAll) (hp : c.AvoidsPrototype)
    (hraises : ¬ c.Raises zod) :
    ∃ item, runCredentialQuery zod c.query [c.present] true = .ok item ∧
      item.credential_query_id = c.query.id ∧ item.success ∧ item.failed_credentials = [] := by
  obtain ⟨-, hmem, ⟨result, hrun, hset⟩, ht, hmeta⟩ := h.exists_result hr
  obtain ⟨hcopy, hdist, hentry, hdis⟩ := output_of_valid (hd _ hmem) hrun hset (h.covers hr hj hs)
  have hpres := present_claims hcopy.exists_obj
  have hdist' : (obj c.present.claims).Distinct := by
    rw [hpres]
    exact distinct_compact hdist
  have hno : ∀ claim ∈ c.query.claims.getD [],
      raises zod true claim.values claim.path (.obj c.present.claims) = false := by
    simpa [Choice.Raises] using hraises
  obtain ⟨result', hrun', hsucc⟩ := runClaimsQuery_success hdist' hno hp fun hsome => by
    obtain ⟨ids, hids⟩ := hentry hsome
    refine ⟨_, hids, fun claim hc => ?_⟩
    obtain ⟨p, hpm⟩ := selects_iff_matched.mp (hs claim hc)
    rw [hpres]
    exact accepts_compact hcopy hpm (hdis claim hc p hpm)
  have hmeta' : (runMetaQuery c.query c.present).isSuccess := by
    rw [Choice.present, runMetaQuery_claims]
    exact hmeta
  exact runCredentialQuery_singleton hrun' hsucc ht hmeta'

/-- The member that the output of a claim has. -/
theorem exists_member {claim : ClaimsQuery} {members : List (String × Value)} {o : Value}
    (h : IsOutput zod false (.obj members) claim o) :
    ∃ m : String × Value, o = obj [m] ∧ claim.path.head? = some (.name m.1) ∧ isPresent m.2 := by
  obtain ⟨payload, hp, hs, rfl⟩ := h
  obtain ⟨q, -, -, hq⟩ := ClaimsQuery.parser_eq zod false claim
  have hne := claim.path_ne_nil
  have hacc := claim.success_eq hp
  rw [hs] at hacc
  rw [hq] at hp
  match hpath : claim.path, hne with
  | .name k :: rest, _ =>
    rw [hpath] at hp
    obtain ⟨-, r, hr, hrs, hval⟩ := name_ok hp hs
    exact ⟨(k, r.value), hval, rfl, output_present hr hrs⟩
  | .index n :: rest, _ =>
    rw [hpath] at hacc
    cases hacc
  | .null :: rest, _ =>
    rw [hpath] at hacc
    cases hacc

theorem exists_members {claims : List ClaimsQuery} {members : List (String × Value)}
    {outputs : List Value} (ho : List.Forall₂ (IsOutput zod false (.obj members)) claims outputs) :
    ∃ disclosed : List (String × Value), outputs = disclosed.map (fun m => obj [m]) ∧
      claims.map (·.path.head?) = disclosed.map (fun m => some (.name m.1)) ∧
      ∀ m ∈ disclosed, isPresent m.2 := by
  induction ho with
  | nil => exact ⟨[], rfl, rfl, by simp⟩
  | cons h _ ih =>
    obtain ⟨m, rfl, hpath, hp⟩ := exists_member h
    obtain ⟨disclosed, rfl, hpaths, hps⟩ := ih
    exact ⟨m :: disclosed, rfl, by rw [List.map_cons, hpath, hpaths, List.map_cons],
      List.forall_mem_cons.mpr ⟨hp, hps⟩⟩

/-- Outputs in different members merge to a copy of all the members together. -/
theorem merged_members {claims : List ClaimsQuery} {members : List (String × Value)}
    {outputs : List Value} {out : Value} (hd : (obj members).Distinct)
    (hn : (claims.map (·.path.head?)).Nodup)
    (ho : List.Forall₂ (IsOutput zod false (.obj members)) claims outputs)
    (hm : mergeOutputs outputs = .ok out) :
    ∃ disclosed : List (String × Value), outputs = disclosed.map (fun m => obj [m]) ∧
    (keys disclosed).Nodup ∧
      (∀ m ∈ disclosed, isPresent m.2) ∧ Copy .tight (obj disclosed) out ∧
        ∀ p, Discloses out p ↔ p = [] ∨ ∃ o ∈ outputs, Discloses o p := by
  have hdist : ∀ o ∈ outputs, o.Distinct := by
    intro o hmem
    obtain ⟨claim, -, payload, hp, hs, rfl⟩ := Except.exists_of_forall₂ ho.flip hmem
    exact claim.output_distinct hd hp hs
  obtain ⟨disclosed, rfl, hpaths, hpresent⟩ := exists_members ho
  have hkeys : (keys disclosed).Nodup := by
    have hcomp : disclosed.map (fun m => some (PathElement.name m.1)) =
        (keys disclosed).map fun k => some (PathElement.name k) := by simp [keys]
    rw [hpaths, hcomp] at hn
    exact hn.of_map _
  have hcopy : ∀ o ∈ disclosed.map (fun m => obj [m]), isMergeableObject o ∧
      Copy .tight (obj disclosed) o := by
    intro o hmem
    obtain ⟨m, hm, rfl⟩ := List.mem_map.mp hmem
    have hlk : (obj disclosed).child (.name m.1) = some m.2 := lookup_of_mem hkeys hm
    refine ⟨rfl, .node rfl (List.nodup_singleton _) (fun k a ha => .inl ?_) fun k a x ha hx => ?_⟩
    all_goals
      rw [entry_singleton (hpresent m hm)] at ha
      split at ha
      case isFalse => cases ha
      subst k
    · rw [hlk]
      rfl
    · cases ha
      obtain rfl : m.2 = x := Option.some.inj (hlk.symm.trans hx)
      have hchild : (obj [m]).child (.name m.1) = some m.2 :=
        lookup_of_mem (List.nodup_singleton _) (List.mem_singleton_self m)
      exact .refl .tight ((hdist _ hmem).child hchild)
  obtain ⟨out', hout, hc, -, hdis⟩ := mergeOutputs_copies rfl hcopy
  obtain rfl : out' = out := Except.ok.inj (hout.symm.trans hm)
  exact ⟨disclosed, rfl, hkeys, hpresent, hc, hdis⟩

/-- Outputs in different members do not mix. -/
theorem merged_member {claims : List ClaimsQuery} {members : List (String × Value)}
    {outputs : List Value} {out : Value} (hd : (obj members).Distinct)
    (hn : (claims.map (·.path.head?)).Nodup)
    (ho : List.Forall₂ (IsOutput zod false (.obj members)) claims outputs)
    (hm : mergeOutputs outputs = .ok out) {key : String} {value : Value}
    (hmem : obj [(key, value)] ∈ outputs) :
    ∃ a, entry (.name key) out = some a ∧ Copy .tight value a ∧ ∀ p, Discloses value p →
    Discloses a p := by
  obtain ⟨disclosed, rfl, hkeys, hpresent, hc, hdis⟩ := merged_members hd hn ho hm
  obtain ⟨m, hmem', heq⟩ := List.mem_map.mp hmem
  obtain rfl : m = (key, value) := by simpa using heq
  have hsub : ∀ p, Discloses value p → Discloses out (.name key :: p) := by
    intro p hp
    refine (hdis _).mpr (.inr ⟨_, hmem, discloses_cons.mpr ⟨value, ?_, hp⟩⟩)
    rw [entry_singleton (hpresent _ hmem'), if_pos rfl]
  have hlk : (obj disclosed).child (.name key) = some value := lookup_of_mem hkeys hmem'
  refine hc.exists_entry ?_ hsub
  rw [entry, hlk, Option.filter_some_pos (hpresent _ hmem')]

/-- A claim that accepts the presentation of outputs in different members found something in the
credential. -/
theorem finds_of_merged {claims : List ClaimsQuery} {members : List (String × Value)}
    {outputs : List Value} {out : Value} (hd : (obj members).Distinct)
    (hn : (claims.map (·.path.head?)).Nodup)
    (ho : List.Forall₂ (IsOutput zod false (.obj members)) claims outputs)
    (hm : mergeOutputs outputs = .ok out) {claim : ClaimsQuery} (hc : claim ∈ claims)
    (hacc : accepts true claim.values claim.path (compact out)) :
    finds claim.values claim.path (.obj members) := by
  obtain ⟨o, hmem, hoc⟩ := Except.exists_of_forall₂ ho hc
  obtain ⟨⟨key, value⟩, rfl, hpath, -⟩ := exists_member hoc
  obtain ⟨a, ha, hca, hda⟩ := merged_member hd hn ho hm hmem
  obtain ⟨payload, hp, hs, hval⟩ := hoc
  obtain ⟨q, -, hv, hq⟩ := ClaimsQuery.parser_eq zod false claim
  rw [hq] at hp
  rw [← hv] at hacc ⊢
  obtain ⟨rest, hrest⟩ : ∃ rest, claim.path = .name key :: rest := by
    cases hcp : claim.path with
    | nil => exact absurd hcp claim.path_ne_nil
    | cons e rest =>
      rw [hcp, List.head?_cons] at hpath
      exact ⟨rest, by rw [Option.some.inj hpath]⟩
  rw [hrest] at hp hacc ⊢
  obtain ⟨ho, r, hr, hrs, hrval⟩ := name_ok hp hs
  obtain rfl : r.value = value := by
    simpa using hrval.symm.trans hval
  have hget : (compact out).get key = compact a := by
    cases out with
    | leaf l => simp [entry] at ha
    | arr items => simp [entry] at ha
    | obj members' =>
      have hka : members'.lookup key = some a := child_of_entry ha
      rw [compact_obj]
      exact get_obj_of_some (by rw [lookup_mapVal, hka, Option.map_some])
  rw [accepts, hget, Bool.and_eq_true] at hacc
  rw [finds, ho, Bool.true_and]
  exact finds_of_accepts hr hrs hca hda hacc.2

/-- The presentation of a choice on which a claim throws makes the credential query throw. -/
theorem Choice.Raises.error (h : c.Raises zod) :
    runCredentialQuery zod c.query [c.present] true = .error .typeError := by
  obtain ⟨claim, hc, hr⟩ := h
  refine runCredentialQuery_error ?_
  cases hq : c.query.claims with
  | none =>
    rw [hq] at hc
    cases hc
  | some claims =>
    rw [hq] at hc
    exact runClaimsQuery_raises hq ⟨claim, hc, hr⟩

end Choice

/-- The presentations satisfy the query. -/
def Satisfies (zod : Zod) (dcqlPresentation : List (String × Presentations))
    (q : DcqlQuery) : Prop :=
  ∃ p, fromDcqlPresentation zod dcqlPresentation q = .ok p ∧ p.can_be_satisfied

section Satisfies

variable {zod : Zod} {q : DcqlQuery} {credentials : List DcqlCredential} {r : DcqlQueryResult}
  {choices : List Choice} {dcqlPresentation : List (String × Presentations)}

/-- The presentations of a choice give the result of its credential query. -/
theorem presentationsResult_eq {c : Choice} {presentations : Presentations}
    (hq : c.query ∈ q.credentials) (hp : presentations.toList = [c.present]) :
    presentationsResult zod q c.query.id presentations =
      runCredentialQuery zod c.query [c.present] true := by
  have hfind : q.credentials.find? (·.id = c.query.id) = some c.query := by
    obtain ⟨query', hfind⟩ := Option.isSome_iff_exists.mp
      (List.find?_isSome.mpr ⟨c.query, hq, decide_eq_true rfl⟩ :
        (q.credentials.find? (·.id = c.query.id)).isSome)
    obtain rfl : query' = c.query := by
      have hid := List.find?_some hfind
      exact List.inj_on_of_nodup_map q.credentials_nodup (List.mem_of_find?_eq_some hfind) hq
        (of_decide_eq_true hid)
    exact hfind
  rw [presentationsResult, hfind]
  match presentations, hp with
  | .single p, hp =>
    simp only [hp]
  | .array [p], hp =>
    simp only [hp]

/-- With a result for each choice, every credential set that is required matches. -/
theorem setsMatch_of_chooses {succeeded : String → Bool}
    (hr : runDcqlQuery zod q credentials false = .ok r) {ids : List String} (hc : Chooses r ids)
    (hids : ∀ id ∈ ids, succeeded id) :
    setsMatch q.credentials succeeded
      (q.credential_sets.map (List.map (runCredentialSet succeeded))) := by
  obtain ⟨rfl, -, hsets⟩ := runDcqlQuery_eq_ok hr
  rw [Chooses, hsets] at hc
  cases hq : r.query.credential_sets with
  | none =>
    rw [hq] at hc
    refine List.all_eq_true.mpr fun query hmem => hids _ ?_
    exact (hc query.id).mpr ⟨query, hmem, rfl⟩
  | some sets =>
    rw [hq] at hc
    obtain ⟨options, hoptions, hmem⟩ := hc
    refine List.all_eq_true.mpr fun result hresult => ?_
    obtain ⟨set, hset, rfl⟩ := List.mem_map.mp hresult
    cases hreq : set.required with
    | false => simp [runCredentialSet, hreq]
    | true =>
      -- the option that was chosen for the set matches
      obtain ⟨option, hoption, hmatch⟩ := Except.exists_of_forall₂ hoptions
        (List.mem_filter.mpr ⟨List.mem_map_of_mem hset, by simpa [runCredentialSet] using hreq⟩)
      have hin : option ∈ set.options := (List.mem_filter.mp hmatch).1
      have hall : option.all succeeded :=
        List.all_eq_true.mpr fun id hid => hids id ((hmem id).mpr ⟨option, hoption, hid⟩)
      have hne : (set.options.filter fun option => option.all succeeded) ≠ [] :=
        List.ne_nil_of_mem (List.mem_filter.mpr ⟨hin, hall⟩)
      simpa [runCredentialSet, hreq] using hne

/-- Every presentation that satisfies the query matches its credential query. -/
theorem Satisfies.exists_result (h : Satisfies zod dcqlPresentation q)
    {entry : String × Presentations} (hmem : entry ∈ dcqlPresentation) :
    ∃ item, presentationsResult zod q entry.1 entry.2 = .ok item ∧ item.success := by
  obtain ⟨p, hp, hsat⟩ := h
  obtain ⟨results, hresults, h⟩ := Except.bind_eq_ok.mp hp
  cases h
  obtain ⟨item, hitem⟩ := Except.exists_of_mapM hresults hmem
  obtain ⟨n, hn⟩ := List.mem_iff_getElem?.mp hmem
  refine ⟨item, hitem, ?_⟩
  have hin : item ∈ results :=
    List.mem_of_getElem? ((Except.getElem?_mapM hresults).mpr ⟨entry, hn, hitem⟩)
  have hall := List.all_eq_true.mp (Bool.and_eq_true_iff.mp hsat).1 item hin
  exact (Bool.and_eq_true_iff.mp hall).1

/-- A presentation whose query is satisfied has a claim set of the query with all claims. -/
theorem exists_accepted {query : DcqlCredentialQuery} {presentation : DcqlCredential}
    {item : CredentialQueryResult} (h : runCredentialQuery zod query [presentation] true = .ok item)
    (hs : item.success) (hsome : query.claims.isSome) :
    ∃ set ∈ query.claimSetEntries, ∀ claim ∈ query.claimsOf set.1,
      accepts true claim.values claim.path (.obj presentation.claims) := by
  obtain ⟨m, hm⟩ := List.exists_mem_of_ne_nil _ (by simpa [CredentialQueryResult.success] using hs)
  obtain ⟨credential, hcred, hrun, hclaims, -⟩ := exists_of_valid_credential h hm
  obtain rfl : credential = presentation := List.mem_singleton.mp (List.mem_of_getElem? hcred)
  obtain ⟨claims, hq⟩ := Option.isSome_iff_exists.mp hsome
  obtain ⟨s, hs⟩ := List.exists_mem_of_ne_nil _ (by simpa [DcqlClaimsResult.success] using hclaims)
  obtain ⟨ids, outputs, ⟨hentry, ho⟩, -⟩ := satisfied_of_valid hq hrun hs
  refine ⟨_, hentry, fun claim hc => ?_⟩
  obtain ⟨o, -, payload, hp, hsucc, -⟩ := Except.exists_of_forall₂ ho hc
  rw [← claim.success_eq hp, hsucc]

/-- Where the claims of a chosen credential query are in different members, each found something in
the credential. -/
theorem Choice.Separate.findsAll {c : Choice} {item : CredentialQueryResult} (hsep : c.Separate)
    (hr : runDcqlQuery zod q credentials false = .ok r)
    (hd : ∀ credential ∈ credentials, (obj credential.claims).Distinct)
    (hc : c.Valid r credentials)
    (hitem : runCredentialQuery zod c.query [c.present] true = .ok item) (hs : item.success) :
    c.FindsAll := by
  obtain ⟨-, hmem, ⟨result, hrun, hset⟩, -, -⟩ := hc.exists_result hr
  intro claim hclaim
  obtain ⟨claims, hq⟩ : ∃ claims, c.query.claims = some claims := by
    cases hq : c.query.claims with
    | none => rw [hq] at hclaim; cases hclaim
    | some claims => exact ⟨claims, rfl⟩
  -- without claim sets the only entry has all claims
  have hentries : ∀ set ∈ c.query.claimSetEntries, c.query.claimsOf set.1 =
      c.query.claims.getD [] := by
    intro set hset
    rw [DcqlCredentialQuery.claimSetEntries, hsep.claim_sets, List.mem_singleton] at hset
    rw [hset]
    rfl
  obtain ⟨ids, outputs, ⟨hentry, ho⟩, hm⟩ := satisfied_of_valid hq hrun hset
  rw [hentries _ hentry] at ho
  obtain ⟨set, hset', hacc⟩ := exists_accepted hitem hs (by rw [hq]; rfl)
  rw [hentries _ hset'] at hacc
  refine finds_of_merged (hd _ hmem) hsep.nodup ho hm hclaim ?_
  obtain ⟨disclosed, -, -, -, hcopy, -⟩ := merged_members (hd _ hmem) hsep.nodup ho hm
  rw [← present_claims hcopy.exists_obj]
  exact hacc claim hclaim

/-- The query is satisfied where all presentations match their credential queries, and all
credential queries that are chosen have one. -/
theorem satisfies_of_items {ids : List String}
    (hr : runDcqlQuery zod q credentials false = .ok r) (hchooses : Chooses r ids)
    (hitem : ∀ entry ∈ dcqlPresentation, ∃ item,
      presentationsResult zod q entry.1 entry.2 = .ok item ∧
      item.credential_query_id = entry.1 ∧ item.success ∧ item.failed_credentials = [])
    (hids : ∀ id ∈ ids, ∃ entry ∈ dcqlPresentation, entry.1 = id) :
    Satisfies zod dcqlPresentation q := by
  obtain ⟨results, hresults⟩ := Except.exists_mapM_eq_ok (l := dcqlPresentation)
    (f := fun (id, presentations) => presentationsResult zod q id presentations)
    fun entry hmem => (hitem entry hmem).imp fun _ h => h.1
  have hall : ∀ result ∈ results, result.success ∧ result.failed_credentials = [] := by
    intro result hmem
    obtain ⟨entry, hentry, hres⟩ :=
      Except.exists_of_forall₂ (Except.mapM_eq_ok.mp hresults).flip hmem
    obtain ⟨item, hitem, -, h⟩ := hitem entry hentry
    obtain rfl : item = result := Except.ok.inj (hitem.symm.trans hres)
    exact h
  refine ⟨_, Except.bind_eq_ok.mpr ⟨results, hresults, rfl⟩, ?_⟩
  refine Bool.and_eq_true_iff.mpr ⟨List.all_eq_true.mpr fun result hmem => ?_, ?_⟩
  · obtain ⟨hs, hf⟩ := hall result hmem
    simp [hs, hf]
  · refine setsMatch_of_chooses hr hchooses fun id hid => ?_
    obtain ⟨entry, hmem, rfl⟩ := hids id hid
    obtain ⟨result, hres, hrun⟩ := Except.exists_of_forall₂ (Except.mapM_eq_ok.mp hresults) hmem
    obtain ⟨item, hitem, hid, -⟩ := hitem entry hmem
    obtain rfl : item = result := Except.ok.inj (hitem.symm.trans hrun)
    obtain ⟨found, hfind⟩ := Option.isSome_iff_exists.mp
      (List.find?_isSome.mpr ⟨item, hres, decide_eq_true hid⟩ :
        (results.find? (·.credential_query_id = entry.1)).isSome)
    rw [hfind]
    exact (hall found (List.mem_of_find?_eq_some hfind)).1

/-- Wallet and verifier agree. Where the claims of the chosen claim sets select elements, the
presentations of a choice from the result of a query satisfy the query if and only if no claim
throws on a presentation; where the claims of a chosen credential query are in different members,
they all have to find something. -/
theorem satisfies_iff (zod : Zod) (q : DcqlQuery) (credentials : List DcqlCredential)
    (r : DcqlQueryResult) (choices : List Choice) (dcqlPresentation : List (String × Presentations))
    (hr : runDcqlQuery zod q credentials false = .ok r)
    (hd : ∀ credential ∈ credentials, (obj credential.claims).Distinct)
    (hj : ∀ credential ∈ credentials, credential.credential_format ≠ .mso_mdoc →
      (obj credential.claims).IsJson)
    (ha : Answers r credentials choices dcqlPresentation) :
    ((∀ c ∈ choices, c.SelectsAll ∧ c.AvoidsPrototype) →
      (Satisfies zod dcqlPresentation q ↔ ∀ c ∈ choices, ¬ c.Raises zod)) ∧
    (Satisfies zod dcqlPresentation q → ∀ c ∈ choices, ¬ c.Raises zod ∧
      (c.Separate → c.FindsAll)) := by
  obtain ⟨hvalid, hnodup, hchooses, hpres⟩ := ha
  have hentry : ∀ {c : Choice} {entry : String × Presentations}, c ∈ choices →
      entry.1 = c.query.id ∧ entry.2.toList = [c.present] →
      presentationsResult zod q entry.1 entry.2 =
        runCredentialQuery zod c.query [c.present] true := by
    rintro c ⟨id, presentations⟩ hc ⟨rfl, hp⟩
    exact presentationsResult_eq ((hvalid c hc).exists_result hr).1 hp
  have hmatches : Satisfies zod dcqlPresentation q → ∀ c ∈ choices,
      ∃ item, runCredentialQuery zod c.query [c.present] true = .ok item ∧ item.success := by
    intro hsat c hc
    obtain ⟨entry, hmem, he⟩ := Except.exists_of_forall₂ hpres hc
    rw [← hentry hc he]
    exact hsat.exists_result hmem
  -- a claim that throws leaves no result for its credential query
  have hno : Satisfies zod dcqlPresentation q → ∀ c ∈ choices, ¬ c.Raises zod := by
    intro hsat c hc hraises
    obtain ⟨item, hitem, -⟩ := hmatches hsat c hc
    cases hraises.error.symm.trans hitem
  refine ⟨fun hok => ⟨hno, fun hraises => ?_⟩, fun hsat c hc => ⟨hno hsat c hc, fun hsep => ?_⟩⟩
  · refine satisfies_of_items hr hchooses (fun entry hmem => ?_) fun id hid => ?_
    · obtain ⟨c, hc, he⟩ := Except.exists_of_forall₂ hpres.flip hmem
      rw [hentry hc he, he.1]
      exact (hvalid c hc).exists_item hr hd hj (hok c hc).1 (hok c hc).2 (hraises c hc)
    · obtain ⟨c, hc, rfl⟩ := List.mem_map.mp hid
      obtain ⟨entry, hmem, he⟩ := Except.exists_of_forall₂ hpres hc
      exact ⟨entry, hmem, he.1⟩
  · obtain ⟨item, hitem, hs⟩ := hmatches hsat c hc
    exact hsep.findsAll hr hd (hvalid c hc) hitem hs

end Satisfies

/-- A query for one credential. -/
def singleQuery (query : DcqlCredentialQuery) : DcqlQuery where
  credentials := [query]
  credentials_nodup := List.nodup_singleton _
  credential_sets_ids := fun _ h => by cases h

/-- An element of an array, another one that is empty, and all elements of the first one. -/
def listsQuery : DcqlCredentialQuery where
  id := "pid"
  format := .dc_sd_jwt
  claims := some [.json { path := [.name "lists", .index 1] },
    .json { path := [.name "lists", .index 2] }, .json { path := [.name "lists", .index 1, .null] }]
  claims_format := by
    rintro cs ⟨⟩
    decide
  claim_ids := by
    rintro cs ⟨⟩
    decide
  claim_sets_ids := fun _ h => by cases h

def listsChoice : Choice where
  query := listsQuery
  credential := sdJwtCredential [("lists", .arr [.str "q", .arr [.str "p"], .arr []])]
  claimSet := ⟨none, .obj [("lists", .arr [.notDisclosed, .arr [.str "p"], .arr []])], [0, 1, 2]⟩

theorem listsChoice_selectsAll : listsChoice.SelectsAll := by
  intro claim hc
  have hclaims : listsQuery.claimsOf none = [.json { path := [.name "lists", .index 1] },
    .json { path := [.name "lists", .index 2] },
      .json { path := [.name "lists", .index 1, .null] }] := rfl
  rw [listsChoice, hclaims] at hc
  simp only [List.mem_cons, List.not_mem_nil, or_false] at hc
  obtain rfl | rfl | rfl := hc <;>
    simp [listsChoice, sdJwtCredential, ClaimsQuery.path, ClaimsQuery.values, Selects, select,
      isPresent, isAllowed]

/-- The presentation has an array and an empty one, that all three claims accept. -/
theorem satisfies_lists :
    Satisfies ⟨true⟩ [("pid",
      .array [sdJwtCredential [("lists", .arr [.arr [.str "p"], .arr []])]])]
      (singleQuery listsQuery) := by
  refine ((satisfies_iff ⟨true⟩ (singleQuery listsQuery) [listsChoice.credential] _ [listsChoice] _
    rfl ?_ ?_ ?_).1 ?_).mpr
    ?_
  · simpa using (Value.IsJson.of_isJson (by decide)).distinct
  · simpa using fun _ => Value.IsJson.of_isJson (by decide)
  · refine ⟨?_, List.nodup_singleton _, ?_, .cons ⟨rfl, rfl⟩ .nil⟩
    · simp only [List.forall_mem_singleton]
      exact ⟨List.mem_singleton_self _, _, rfl, _, List.mem_singleton_self _, rfl,
        List.mem_singleton_self _⟩
    · intro id
      simp [singleQuery, listsChoice, eq_comm]
  · simp only [List.forall_mem_singleton]
    refine ⟨listsChoice_selectsAll, ?_⟩
    unfold Choice.AvoidsPrototype
    decide
  · simp only [List.forall_mem_singleton]
    unfold Choice.Raises
    decide

/-- The credential without nationalities satisfies the query, its presentation does not. -/
theorem not_satisfies_no_nationality :
    ∃ r choices dcqlPresentation,
      runDcqlQuery ⟨true⟩ (singleQuery
        (singleClaimQuery { path := [.name "nationalities", .null] }))
        [sdJwtCredential [("nationalities", .arr [])]] false = .ok r ∧ r.can_be_satisfied ∧
      Answers r [sdJwtCredential [("nationalities", .arr [])]] choices dcqlPresentation ∧
      ¬ Satisfies ⟨true⟩ dcqlPresentation
        (singleQuery (singleClaimQuery { path := [.name "nationalities", .null] })) := by
  refine ⟨_, [Choice.mk (singleClaimQuery { path := [.name "nationalities", .null] })
      (sdJwtCredential [("nationalities", .arr [])]) ⟨none, .obj [("nationalities", NEVER)], [0]⟩],
    [("pid", .array [sdJwtCredential [("nationalities", NEVER)]])], rfl, rfl, ?_, ?_⟩
  · refine ⟨?_, List.nodup_singleton _, ?_, .cons ⟨rfl, rfl⟩ .nil⟩
    · simp only [List.forall_mem_singleton]
      exact ⟨List.mem_singleton_self _, _, rfl, _, List.mem_singleton_self _, rfl,
        List.mem_singleton_self _⟩
    · intro id
      simp [singleQuery, eq_comm]
  · rintro ⟨p, hp, hsat⟩
    cases hp
    cases hsat

end IdentityCommon.Dcql
