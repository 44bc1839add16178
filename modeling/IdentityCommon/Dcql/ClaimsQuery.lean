import IdentityCommon.Dcql.ClaimOutput

/-!
# Claims queries

`runClaimsQuery` parses every claim of a credential query, and merges the outputs of the
claims of each claim set.

## Main definitions

- `runClaimsQuery` — the claims and the claim sets that a credential satisfies
-/

namespace IdentityCommon.Dcql

open Ecma AssocList Value

/-- What is thrown. -/
inductive Thrown
  | typeError
  | parseError (message : String)
  | dcqlError (error : DcqlError)
  | presentationResultError (message : String)

structure ClaimSuccess where
  claim_index : ℕ
  claim_id : Option String
  output : Value

structure ClaimFailure where
  claim_index : ℕ
  claim_id : Option String
  issues : List Issue

abbrev ClaimEntry := ClaimSuccess ⊕ ClaimFailure

structure ClaimSetSuccess where
  claim_set_index : Option ℕ
  output : Value
  valid_claim_indexes : List ℕ

structure ClaimSetFailure where
  claim_set_index : Option ℕ
  issues : List Issue
  failed_claim_indexes : List ℕ
  valid_claim_indexes : List ℕ

abbrev ClaimSetEntry := ClaimSetSuccess ⊕ ClaimSetFailure

/-- The result for one credential; an empty list is an absent member. -/
structure DcqlClaimsResult where
  valid_claims : List ClaimSuccess
  failed_claims : List ClaimFailure
  valid_claim_sets : List ClaimSetSuccess
  failed_claim_sets : List ClaimSetFailure

def DcqlClaimsResult.success (r : DcqlClaimsResult) : Bool := !r.valid_claim_sets.isEmpty

/-- The first of two lists of alternatives, in order. -/
def lefts {α β : Type} (l : List (α ⊕ β)) : List α := l.filterMap Sum.getLeft?

def rights {α β : Type} (l : List (α ⊕ β)) : List β := l.filterMap Sum.getRight?

section Alternatives

variable {α β : Type} (a : α) (b : β) (l : List (α ⊕ β))

@[simp] theorem lefts_nil : lefts ([] : List (α ⊕ β)) = [] := rfl

@[simp] theorem lefts_inl : lefts (.inl a :: l) = a :: lefts l := rfl

@[simp] theorem lefts_inr : lefts (.inr b :: l) = lefts l := rfl

@[simp] theorem rights_nil : rights ([] : List (α ⊕ β)) = [] := rfl

@[simp] theorem rights_inl : rights (.inl a :: l) = rights l := rfl

@[simp] theorem rights_inr : rights (.inr b :: l) = b :: rights l := rfl

end Alternatives

/-- The entry of the claims query at `claimIndex`. -/
def runClaim (zod : Zod) (presentation : Bool) (claims : Value) (claimIndex : ℕ)
    (claimQuery : ClaimsQuery) : Except Thrown ClaimEntry :=
  match claimQuery.parser zod presentation claims with
  | .error _ => .error .typeError
  | .ok parseResult => .ok <|
    if parseResult.success then .inl ⟨claimIndex, claimQuery.id, parseResult.value⟩
    else .inr ⟨claimIndex, claimQuery.id, parseResult.issues⟩

/-- The entries of the claims of a claim set; without claim sets, all claims. -/
def claimsOfSet (validClaims : List ClaimSuccess) (failedClaims : List ClaimFailure)
    (queryId : String) : Option ℕ × List String → Except Thrown (List ClaimEntry)
  | (none, _) => .ok (validClaims.map .inl ++ failedClaims.map .inr)
  | (some claimSetIndex, claimSet) => claimSet.mapM fun id =>
    match validClaims.find? (·.claim_id = some id) with
    | some claim => .ok (.inl claim)
    | none => match failedClaims.find? (·.claim_id = some id) with
      | some claim => .ok (.inr claim)
      | none => .error (.parseError ("Claim with id '" ++ id ++ "' in query '" ++ queryId ++
          "' from claim set with index '" ++ toString claimSetIndex ++
          "' not found in claims of claim"))

/-- The outputs of the claims of a set, merged in order. -/
def mergeOutputs (outputs : List Value) : Except DcqlError Value :=
  outputs.foldlM (fun merged output => deepMerge output merged) (.obj [])

def liftDcqlError {α : Type} : Except DcqlError α → Except Thrown α
  | .ok a => .ok a
  | .error e => .error (.dcqlError e)

def runClaimSet (validClaims : List ClaimSuccess) (failedClaims : List ClaimFailure)
    (queryId : String) (claimSet : Option ℕ × List String) : Except Thrown ClaimSetEntry := do
  let claims ← claimsOfSet validClaims failedClaims queryId claimSet
  if claims.all Sum.isLeft then do
    let output ← liftDcqlError (mergeOutputs ((lefts claims).map ClaimSuccess.output))
    return .inl {
      claim_set_index := claimSet.1
      output := output
      valid_claim_indexes := (lefts claims).map ClaimSuccess.claim_index }
  else
    return .inr {
      claim_set_index := claimSet.1
      issues := (rights claims).flatMap ClaimFailure.issues
      failed_claim_indexes := (rights claims).map ClaimFailure.claim_index
      valid_claim_indexes := (lefts claims).map ClaimSuccess.claim_index }

/-- The claim sets with their indexes; without claim sets, one entry for all claims. -/
def DcqlCredentialQuery.claimSetEntries (q : DcqlCredentialQuery) : List (Option ℕ × List String) :=
  match q.claim_sets with
  | some sets => sets.zipIdx.map fun (set, i) => (some i, set)
  | none => [(none, [])]

def runClaimsQuery (zod : Zod) (credentialQuery : DcqlCredentialQuery) (credential : DcqlCredential)
    (presentation : Bool) : Except Thrown DcqlClaimsResult :=
  match credentialQuery.claims with
  | none =>
    -- no claims, always matches
    return ⟨[], [], [⟨none, .obj [], []⟩], []⟩
  | some claims => do
    let entries ← claims.zipIdx.mapM fun (claimQuery, claimIndex) =>
      runClaim zod presentation (.obj credential.claims) claimIndex claimQuery
    let validClaims := lefts entries
    let failedClaims := rights entries
    let sets ← credentialQuery.claimSetEntries.mapM
      (runClaimSet validClaims failedClaims credentialQuery.id)
    return ⟨validClaims, failedClaims, lefts sets, rights sets⟩

/-! ## Parsers of claims -/

namespace ClaimsQuery

variable {zod : Zod} {presentation : Bool} {c : ClaimsQuery}

/-- The parser of any claims query is the one of a JSON query with the same path. -/
theorem parser_eq (zod : Zod) (presentation : Bool) (c : ClaimsQuery) :
    ∃ q : W3cAndSdJwtVc, q.path = c.path ∧ q.values = c.values ∧
      c.parser zod presentation = getJsonClaimParser zod q presentation 0 c.path := by
  cases c with
  | json q => exact ⟨q, rfl, rfl, rfl⟩
  | mdocPath q => exact ⟨_, rfl, rfl, getMdocClaimParser_eq zod presentation q.path q.values⟩
  | mdocNamespace q =>
    exact ⟨_, rfl, rfl, getMdocClaimParser_eq zod presentation (q.namespace, q.claim_name) q.values⟩

theorem path_ne_nil (c : ClaimsQuery) : c.path ≠ [] := by
  cases c with
  | json q => exact q.path_ne_nil
  | mdocPath q => exact List.cons_ne_nil _ _
  | mdocNamespace q => exact List.cons_ne_nil _ _

theorem parser_spec (zod : Zod) (presentation : Bool) (c : ClaimsQuery) :
    Spec (c.parser zod presentation) (raises zod presentation c.values c.path)
      (accepts presentation c.values c.path) := by
  obtain ⟨q, -, hv, hq⟩ := parser_eq zod presentation c
  rw [hq, ← hv]
  exact getJsonClaimParser_spec zod q presentation c.path 0

theorem success_eq {v : Value} {payload : Payload} (h : c.parser zod presentation v = .ok payload) :
    payload.success = accepts presentation c.values c.path v :=
  (parser_spec zod presentation c).success_eq h

theorem output_copy {g : Slack} {v : Value} {payload : Payload} (hd : v.Distinct)
    (hg : g.Covers presentation c.values c.path v) (h : c.parser zod presentation v = .ok payload)
    (hs : payload.success) : Copy g v payload.value := by
  obtain ⟨q, -, hv, hq⟩ := parser_eq zod presentation c
  rw [hq] at h
  exact Dcql.output_copy hd (hv ▸ hg) h hs

theorem output_discloses {v : Value} {payload : Payload} {p : List Key}
    (h : c.parser zod false v = .ok payload) (hs : payload.success)
    (hm : Matched c.values c.path v p) : Discloses payload.value p := by
  obtain ⟨q, -, hv, hq⟩ := parser_eq zod false c
  rw [hq] at h
  exact Dcql.output_discloses h hs (hv ▸ hm)

theorem output_distinct {v : Value} {payload : Payload} (hd : v.Distinct)
    (h : c.parser zod presentation v = .ok payload) (hs : payload.success) :
    payload.value.Distinct := by
  obtain ⟨q, -, hv, hq⟩ := parser_eq zod presentation c
  rw [hq] at h
  exact Dcql.output_distinct hd h hs

theorem output_projects {v : Value} {payload : Payload} (hd : v.Distinct)
    (h : c.parser zod false v = .ok payload) (hs : payload.success)
    (hg : reachesVacuous c.values c.path v = false) :
    Projects (Matched c.values c.path v) v payload.value := by
  obtain ⟨q, -, hv, hq⟩ := parser_eq zod false c
  rw [hq] at h
  have hp := Dcql.output_projects hd h hs (by rw [hv, hg])
  rwa [hv] at hp

theorem output_garbage {v : Value} {payload : Payload} (hj : v.IsJson)
    (h : c.parser zod false v = .ok payload) (hs : payload.success)
    (hg : reachesVacuous c.values c.path v) : Garbage v payload.value := by
  obtain ⟨q, -, hv, hq⟩ := parser_eq zod false c
  rw [hq] at h
  exact Dcql.output_garbage hj h hs (by rw [hv, hg])

/-- The claims of a credential are an object, and so is the output of a claim. -/
theorem output_obj {members : List (String × Value)} {payload : Payload}
    (h : c.parser zod presentation (.obj members) = .ok payload) (hs : payload.success) :
    payload.value.head = .obj [] := by
  obtain ⟨q, -, -, hq⟩ := parser_eq zod presentation c
  have hne := path_ne_nil c
  rw [hq] at h
  match hp : c.path, hne with
  | .name k :: rest, _ =>
    rw [hp] at h
    obtain ⟨-, r, -, -, hval⟩ := name_ok h hs
    rw [hval]
    rfl
  | .index n :: rest, _ =>
    have hsucc := Dcql.success_eq h
    rw [hp, hs] at hsucc
    cases hsucc
  | .null :: rest, _ =>
    have hsucc := Dcql.success_eq h
    rw [hp, hs] at hsucc
    cases hsucc

end ClaimsQuery

theorem isMergeableObject_of_head {v : Value} (h : v.head = .obj []) : isMergeableObject v := by
  match v, h with
  | .obj _, _ => rfl

/-! ## A single claim -/

theorem runClaim_error {zod : Zod} {presentation : Bool} {v : Value} {i : ℕ} {c : ClaimsQuery}
    (h : raises zod presentation c.values c.path v) :
    runClaim zod presentation v i c = .error .typeError := by
  rw [runClaim, (c.parser_spec zod presentation).error v h]

theorem runClaim_ok {zod : Zod} {presentation : Bool} {v : Value} {i : ℕ} {c : ClaimsQuery}
    {entry : ClaimEntry} (h : runClaim zod presentation v i c = .ok entry) :
    ∃ payload, c.parser zod presentation v = .ok payload ∧
      entry = if payload.success then .inl ⟨i, c.id, payload.value⟩
        else .inr ⟨i, c.id, payload.issues⟩ := by
  unfold runClaim at h
  split at h
  · cases h
  case h_2 payload hp =>
    exact ⟨payload, hp, (Except.ok.inj h).symm⟩

theorem exists_runClaim {zod : Zod} {presentation : Bool} {v : Value} {c : ClaimsQuery}
    (h : raises zod presentation c.values c.path v = false) (i : ℕ) :
    ∃ entry, runClaim zod presentation v i c = .ok entry := by
  obtain ⟨payload, hp, -⟩ := (c.parser_spec zod presentation).ok v h
  rw [runClaim, hp]
  exact ⟨_, rfl⟩

/-- One JSON claim of an SD-JWT credential. -/
def singleClaimQuery (c : W3cAndSdJwtVc) : DcqlCredentialQuery where
  id := "pid"
  format := .dc_sd_jwt
  claims := some [.json c]
  claims_format := by
    rintro cs ⟨⟩ c hc
    obtain rfl := List.mem_singleton.mp hc
    rfl
  claim_ids := by
    rintro cs ⟨⟩
    cases h : c.id <;> simp [ClaimsQuery.id, h]
  claim_sets_ids := fun _ h => by cases h

def sdJwtCredential (claims : List (String × Value)) : DcqlCredential where
  credential_format := .dc_sd_jwt
  cryptographic_holder_binding := true
  vct := some "pid"
  claims := claims

end IdentityCommon.Dcql
