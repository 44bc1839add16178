import IdentityCommon.Dcql.Query
import IdentityCommon.Lib.Except

/-!
# Parsers of single claims

The parser that a claims query is turned into. It reads the claims along the path of the query
and returns what the claim discloses, or issues.

## Main definitions

- `getClaimParser`, `getJsonClaimParser`, `getMdocClaimParser` — the parsers

## Main results

- `getMdocClaimParser_eq` — an mdoc query is parsed like the JSON query with its two names

## Design notes

`zod` is not part of the repository. A parser returns a value with the issues it has added,
and a parse is a success when there are none. Where the language throws instead, the error is
a `TypeError`.
-/

namespace IdentityCommon.Dcql

open Ecma

/-- What `zod` leaves open: whether a check added to a schema with a check also runs after the first
one has added an issue. -/
structure Zod where
  runsAllChecks : Bool

/-- The codes of the issues of a credential that does not match a query. -/
inductive DcqlValidationCode
  /-- The claims path pointer does not point to a value in the credential. -/
  | claims_path_not_found
  /-- The claim is not one of the `values` of the claims query. -/
  | claim_values_mismatch
  /-- The credential format is not the `format` of the credential query. -/
  | credential_format_mismatch
  /-- The doctype is not the `doctype_value` of the credential query. -/
  | doctype_mismatch
  /-- The vct is not one of the `vct_values` of the credential query. -/
  | vct_mismatch
  /-- The type does not include all of one of the `type_values` of the credential query. -/
  | type_mismatch
  /-- The credential query requires cryptographic holder binding, and the credential has none. -/
  | cryptographic_holder_binding_required
  /-- The authority of the credential does not match the trusted authorities query. -/
  | trusted_authority_mismatch
  /-- An array that must not be empty is. -/
  | empty_array
  /-- A required value is missing. -/
  | missing_value
  deriving DecidableEq

/-- The context that goes with a code. -/
inductive IssueContext
  | claim_values (expected : List ClaimValue) (actual : Value)
  | credential_format (expected actual : CredentialFormat)
  | doctype (expected : String) (actual : Option String)
  | vct (expected : List String) (actual : Option String)
  | type (expected : List (List String)) (actual : Option (List String))
  | trusted_authority (expected : TrustedAuthority) (actual : Option TrustedAuthority)
  | missing_value (expected : String)

structure Issue where
  code : DcqlValidationCode
  message : String
  path : List Key := []
  context : Option IssueContext := none

/-- The language throws. -/
structure TypeError where
  deriving DecidableEq

/-- A parsed value with the issues that were added. -/
structure Payload where
  value : Value
  issues : List Issue

def Payload.success (p : Payload) : Bool := p.issues.isEmpty

abbrev Parser := Value → Except TypeError Payload

/-- The value that a failed transform of `zod` returns. -/
def NEVER : Value := .obj [("status", .str "aborted")]

/-! ## Texts -/

def PathElement.toText : PathElement → String
  | .name s => "'" ++ s ++ "'"
  | .index n => toString n
  | .null => "null"

def pathToString (path : List PathElement) : String := ".".intercalate (path.map PathElement.toText)

/-- `path.join("'.'")`. -/
def joinPath (path : List PathElement) : String :=
  "'.'".intercalate (path.map fun
    | .name s => s
    | .index n => toString n
    | .null => "")

def formatValue : Value → Except TypeError String
  | .str s => .ok ("'" ++ s ++ "'")
  | v => match v.toText with
    | some text => .ok text
    | none => .error ⟨⟩

def ClaimValue.format : ClaimValue → String
  | .str s => "'" ++ s ++ "'"
  | .int n => toString n
  | .bool b => if b then "true" else "false"

/-! ## Parsers -/

/-- An issue of the parse of a nested value, re-added to the parse of the value it is in. -/
def nestedIssue (issue : Issue) (path : List Key) : Issue :=
  { issue with path := path ++ issue.path }

def claimsPathNotFound (message : String) : Issue where
  code := .claims_path_not_found
  message := message

/-- An object along the claims path pointer, parsed to an object with the one member of its
shape. -/
def zClaimObject (key : String) (member : Parser) (message : String) : Parser := fun value =>
  if value.isObject then do
    let result ← member (value.get key)
    return ⟨.obj [(key, result.value)], result.issues.map (nestedIssue · [.name key])⟩
  else
    return ⟨value, [claimsPathNotFound message]⟩

/-- An array along the claims path pointer, with a transform of it. -/
def zClaimArray (message : String) (transform : List Value → Except TypeError Payload) : Parser
  | .arr items => transform items
  | value => return ⟨value, [claimsPathNotFound message]⟩

/-- The value has been disclosed. -/
def isPresent : Value → Bool
  | .undefined | .notDisclosed => false
  | _ => true

/-- `values.includes(value)`, and any value without `values`. -/
def isAllowed (values : Option (List ClaimValue)) : Value → Bool
  | .leaf l => values.all fun vs => vs.any fun c => c.toLeaf = l
  | _ => values.isNone

def getClaimParser (path : List PathElement) (values : Option (List ClaimValue)) :
    Parser := fun value =>
  if !isPresent value then
    return ⟨value, [claimsPathNotFound ("Expected claim '" ++ joinPath path ++ "' to be defined")]⟩
  else if !isAllowed values value then do
    let expected := values.getD []
    let received ← formatValue value
    return ⟨value, [{
      code := .claim_values_mismatch
      message := "Expected claim " ++ pathToString path ++ " to be " ++
        " | ".intercalate (expected.map ClaimValue.format) ++ " but received " ++ received
      context := some (.claim_values expected value) }]⟩
  else
    return ⟨value, []⟩

/-- The loop over the elements of an array in a presentation, from `itemIndex` on: the issues so far
with the first one of each element, or `none` once an element is accepted. -/
def anyItem (elementParser : Parser) :
    ℕ → List Value → List Issue → Except TypeError (Option (List Issue))
  | _, [], issues => return some issues
  | itemIndex, item :: items, issues => do
    let itemResult ← elementParser item
    if itemResult.success then
      return none
    else
      let issue := (itemResult.issues.take 1).map (nestedIssue · [.index itemIndex])
      anyItem elementParser (itemIndex + 1) items (issues ++ issue)

/-- In a presentation any element of the array may be the one with the index. -/
def zAnyItem (zod : Zod) (arrayPath notArray : String) (isLast : Bool)
    (elementParser : Parser) : Parser
  | .arr items => do
    match ← anyItem elementParser 0 items [] with
    | none => return ⟨.arr items, []⟩
    | some [] => return ⟨.arr items, [claimsPathNotFound
        ("Expected any element in array " ++ arrayPath ++ " to match, but the array is empty")]⟩
    | some (issue :: _) => return ⟨.arr items, [{ issue with
        message := if isLast then issue.message
          else "Expected any element in array " ++ arrayPath ++
            " to match sub requirement but none matched: " ++ issue.message }]⟩
  | value =>
    -- the loop reads the entries of a value that is not an array
    if zod.runsAllChecks then throw ⟨⟩ else return ⟨value, [claimsPathNotFound notArray]⟩

/-- The parser of `claimQuery` from component `index` of its path on; the list holds these
components. -/
def getJsonClaimParser (zod : Zod) (claimQuery : W3cAndSdJwtVc) (presentation : Bool) (index : ℕ) :
    List PathElement → Parser
  | [] => getClaimParser claimQuery.path claimQuery.values
  | .name key :: rest =>
    zClaimObject key (getJsonClaimParser zod claimQuery presentation (index + 1) rest)
      ("Expected claim " ++ pathToString claimQuery.path ++ " to be defined")
  | .index n :: rest =>
    let elementParser := getJsonClaimParser zod claimQuery presentation (index + 1) rest
    let arrayPath := pathToString (claimQuery.path.take (index + 1))
    let notArray := "Expected path " ++ arrayPath ++ " to be an array"
    if presentation then zAnyItem zod arrayPath notArray rest.isEmpty elementParser
    else zClaimArray notArray fun items => do
      let result ← elementParser (items[n]?.getD .undefined)
      if result.success then
        -- keeps the index of the element: the slots before it are not disclosed
        return ⟨.arr ((items.take n).map (fun _ => .notDisclosed) ++ [result.value]), []⟩
      else
        return ⟨NEVER, (result.issues.take 1).map (nestedIssue · [.index n])⟩
  | .null :: rest =>
    let itemParser := getJsonClaimParser zod claimQuery presentation (index + 1) rest
    zClaimArray ("Expected path " ++ pathToString (claimQuery.path.take (index + 1)) ++
      " to be an array")
      fun items => do
        let mapped ← items.mapM itemParser
        if mapped.all (!·.success) then
          return ⟨NEVER, mapped.zipIdx.flatMap fun (parsed, itemIndex) =>
            parsed.issues.map (nestedIssue · [.index itemIndex])⟩
        else
          return ⟨.arr (mapped.map fun parsed => if parsed.success then parsed.value
            else .notDisclosed), []⟩

def getMdocClaimParser (path : String × String) (values : Option (List ClaimValue)) : Parser :=
  let mdocPath : List PathElement := [.name path.1, .name path.2]
  let message := "Expected claim " ++ pathToString mdocPath ++ " to be defined"
  zClaimObject path.1 (zClaimObject path.2 (getClaimParser mdocPath values) message) message

/-- The parser of a claims query of any format. -/
def ClaimsQuery.parser (zod : Zod) (presentation : Bool) : ClaimsQuery → Parser
  | .json q => getJsonClaimParser zod q presentation 0 q.path
  | .mdocPath q => getMdocClaimParser q.path q.values
  | .mdocNamespace q => getMdocClaimParser (q.namespace, q.claim_name) q.values

theorem getMdocClaimParser_eq (zod : Zod) (presentation : Bool) (path : String × String)
    (values : Option (List ClaimValue)) :
    getMdocClaimParser path values = getJsonClaimParser zod
      { path := [.name path.1, .name path.2], values := values,
        path_ne_nil := List.cons_ne_nil _ _ }
      presentation 0 [.name path.1, .name path.2] := rfl

end IdentityCommon.Dcql
