import IdentityCommon.Ecma.Value

/-!
# DCQL queries and credentials

The data of a parsed DCQL query and of the credentials it is matched with.

## Main definitions

- `PathElement`, `ClaimValue`, `ClaimsQuery` — one requested claim
- `DcqlCredentialQuery`, `DcqlQuery` — queries, with what their schemas check
- `DcqlCredential` — a credential, or the presentation of one
-/

namespace IdentityCommon.Dcql

open Ecma

/-! ## Claims queries -/

/-- A component of a claims path pointer. -/
inductive PathElement
  | name (s : String)
  | index (n : ℕ)
  | null
  deriving DecidableEq

/-- A string, an integer or a boolean. -/
inductive ClaimValue
  | str (s : String)
  | int (n : ℤ)
  | bool (b : Bool)
  deriving DecidableEq

def ClaimValue.toLeaf : ClaimValue → Leaf
  | .str s => .str s
  | .int n => .num (.ofInt n)
  | .bool b => .bool b

/-- A claims query of the JSON formats. -/
structure W3cAndSdJwtVc where
  id : Option String := none
  path : List PathElement
  values : Option (List ClaimValue) := none
  path_ne_nil : path ≠ [] := by decide

/-- A claims query of the mdoc format, in the syntax from Draft 24 of OID4VP on. -/
structure MdocPath where
  id : Option String := none
  path : String × String
  values : Option (List ClaimValue) := none

/-- A claims query of the mdoc format, in the syntax up until Draft 23 of OID4VP. -/
structure MdocNamespace where
  id : Option String := none
  «namespace» : String
  claim_name : String
  values : Option (List ClaimValue) := none

inductive ClaimsQuery
  | json (query : W3cAndSdJwtVc)
  | mdocPath (query : MdocPath)
  | mdocNamespace (query : MdocNamespace)

namespace ClaimsQuery

def id : ClaimsQuery → Option String
  | json q => q.id
  | mdocPath q => q.id
  | mdocNamespace q => q.id

def isMdoc : ClaimsQuery → Bool
  | json _ => false
  | _ => true

/-- The claims path pointer of any of the three. -/
def path : ClaimsQuery → List PathElement
  | json q => q.path
  | mdocPath q => [.name q.path.1, .name q.path.2]
  | mdocNamespace q => [.name q.namespace, .name q.claim_name]

def values : ClaimsQuery → Option (List ClaimValue)
  | json q => q.values
  | mdocPath q => q.values
  | mdocNamespace q => q.values

end ClaimsQuery

/-! ## Credential queries -/

inductive CredentialFormat
  | mso_mdoc
  | vc_sd_jwt
  | dc_sd_jwt
  | jwt_vc_json
  | ldp_vc
  deriving DecidableEq

inductive TrustedAuthorityType
  | aki
  | etsi_tl
  | openid_federation
  deriving DecidableEq

structure TrustedAuthority where
  type : TrustedAuthorityType
  values : List String
  deriving DecidableEq

/-- The members of `meta` for any format. -/
structure Meta where
  doctype_value : Option String := none
  vct_values : Option (List String) := none
  type_values : Option (List (List String)) := none
  deriving DecidableEq

/-- A credential query that its schema accepts: the claims have the syntax of its format, and
`checkClaimIds` adds no issue. -/
structure DcqlCredentialQuery where
  id : String
  format : CredentialFormat
  require_cryptographic_holder_binding : Bool := true
  multiple : Bool := false
  claims : Option (List ClaimsQuery) := none
  claim_sets : Option (List (List String)) := none
  trusted_authorities : Option (List TrustedAuthority) := none
  «meta» : Option Meta := none
  claims_format : ∀ cs, claims = some cs → ∀ c ∈ cs, c.isMdoc = (format = .mso_mdoc : Bool)
  claim_ids : ∀ cs, claims = some cs → (cs.filterMap ClaimsQuery.id).Nodup
  claim_sets_ids : ∀ sets, claim_sets = some sets → ∀ cs, claims = some cs →
    ∀ set ∈ sets, ∀ i ∈ set, ∃ c ∈ cs, c.id = some i

structure CredentialSetQuery where
  options : List (List String)
  required : Bool := true

/-- A query that its schema accepts: `checkCredentialQueryIds` adds no issue. -/
structure DcqlQuery where
  credentials : List DcqlCredentialQuery
  credential_sets : Option (List CredentialSetQuery) := none
  credentials_nodup : (credentials.map DcqlCredentialQuery.id).Nodup
  credential_sets_ids : ∀ sets, credential_sets = some sets → ∀ set ∈ sets,
    ∀ option ∈ set.options, ∀ i ∈ option, ∃ q ∈ credentials, q.id = i

/-! ## Credentials -/

/-- A credential of any format: `claims` are its claims, or the namespaces of an mdoc, and
`doctype`, `vct` and `type` are present where its format has them. -/
structure DcqlCredential where
  credential_format : CredentialFormat
  cryptographic_holder_binding : Bool
  authority : Option TrustedAuthority := none
  doctype : Option String := none
  vct : Option String := none
  type : Option (List String) := none
  claims : List (String × Value)

end IdentityCommon.Dcql
