import IdentityCommon.Ecma.Text
import IdentityCommon.OpenidFederation.PolicyOperators
import Mathlib.Data.List.Sort

/-!
# Metadata policies

How the metadata policies of the statements of a trust chain are combined, and how the combined
policy is applied to the metadata of the leaf.

## Main definitions

- `combineMetadataPolicies` — the combined policy, from the trust anchor down
- `applyMetadataPolicyToMetadata` — the metadata that a policy leaves

## Design notes

The metadata of an entity type is a list of members. What a member of an inherited function is, such
as its `name`, is taken to be `undefined`: it has no operators either way.
-/

namespace IdentityCommon.OpenidFederation

open IdentityCommon.Except AssocList Ecma Value

/-! ## Metadata -/

/-- The metadata of each entity type, or the policy of each. -/
abbrev Metadata := List (String × Members)

def hasEntityType (leafMetadata : Metadata) (service : String) : Bool :=
  (leafMetadata.lookup service).isSome || isInherited service

def getPropertyValue (leafMetadata : Metadata) (service property : String) : Value :=
  match leafMetadata.lookup service with
  | some block => (obj block).get property
  | none => (inherited service).get property

def setPropertyValue (leafMetadata : Metadata) (service property : String)
    (value : Value) : Metadata :=
  insert service (insert property value ((leafMetadata.lookup service).getD [])) leafMetadata

def deleteProperty (leafMetadata : Metadata) (service property : String) : Metadata :=
  match leafMetadata.lookup service with
  | some block => insert service (block.filter (·.1 ≠ property)) leafMetadata
  | none => if isInherited service then insert service [] leafMetadata else leafMetadata

/-- `{ ...value }`. -/
def spread : Value → Members
  | obj members => members
  | _ => []

/-! ## Combining -/

def mergeOperator (path : String) (op : Operator) (existing new : Value) :
    Except PolicyError Value :=
  if !op.operatorSchema new then .error (.schema ["Invalid input"])
  else match op.mergeStrategy, existing, new with
    | .operatorValuesEqual, arr a, arr b =>
      if a.length ≠ b.length ∨ ((a.zip b).any fun (v, w) => !strictEquals v w) then
        .error (.merge "Policy rule values are not equal" path)
      else .ok existing
    | .operatorValuesEqual, _, _ =>
      if strictEquals existing new then .ok existing
      else .error (.merge "Policy rule values are not equal" path)
    | .union, arr a, arr b => .ok (arr (union a b))
    | .union, _, _ => .error (.merge "Operator values are not an array" path)
    | .intersection, arr a, arr b =>
      if intersect a b = [] then .error (.merge "Intersection is empty" path)
      else .ok (arr (intersect a b))
    | .intersectionMayBeEmpty, arr a, arr b => .ok (arr (intersect a b))
    | .intersection, _, _ | .intersectionMayBeEmpty, _, _ =>
      .error (.merge "Existing policy rule value is not an array" path)
    | .logicalOr, Value.bool a, Value.bool b => .ok (Value.bool (a || b))
    | .logicalOr, _, _ => .error (.merge "Existing policy rule value is not a boolean" path)

/-- One rule of the new policy. Operators that are not known are skipped. -/
def combineRule (path : String) (combined : Members) (rule : String × Value) :
    Except PolicyError Members :=
  if !isExistingPolicyKey rule.1 then .ok combined
  else match ofKey rule.1 with
    | none => .error .typeError
    | some op =>
      match combined.lookup rule.1 with
      | none => .ok (insert rule.1 rule.2 combined)
      | some existing => do
        let merged ← mergeOperator path op existing rule.2
        return insert rule.1 merged combined

def combineExistingMetadataPolicyOperators (contextPath : String)
    (existingPolicyRules newPolicyRules : Members) : Except PolicyError Members :=
  newPolicyRules.foldlM (combineRule contextPath) existingPolicyRules

/-- The policy claims of a statement, which meet their schema. -/
structure PolicyStatement where
  metadataPolicy : Option (List (String × List (String × Members)))
  metadataPolicyCrit : Option (List String)
  valid : ∀ policy ∈ metadataPolicy, (keys policy).Nodup ∧
    ∀ service ∈ policy, (keys service.2).Nodup ∧
    ∀ property ∈ service.2, (keys property.2).Nodup ∧ zMetadataPolicy property.2 = .ok ()

def unsupportedMethodsAndRequired (metadataPolicyCrit : Option (List String))
    (rules : Members) : List String :=
  match metadataPolicyCrit with
  | some crit => (keys rules).filter fun method => !isExistingPolicyKey method && method ∈ crit
  | none => []

/-- The merged policy with the rules of one parameter of a statement. -/
def combineRules (metadataPolicyCrit : Option (List String)) (merged : Metadata)
    (service property : String) (newPolicyRules : Members) : Except PolicyError Metadata := do
  let unsupported := unsupportedMethodsAndRequired metadataPolicyCrit newPolicyRules
  if unsupported ≠ [] then
    .error (.federation .metadataPolicyCrit
      ("Unsupported policy method and is required by the metadata_policy_crit: " ++
        ", ".intercalate unsupported))
  else
    let existing := getPropertyValue merged service property
    if !existing.truthy then return setPropertyValue merged service property (obj newPolicyRules)
    else
      let combined ← combineExistingMetadataPolicyOperators (service ++ "." ++ property)
        (spread existing) newPolicyRules
      zMetadataPolicy combined
      return setPropertyValue merged service property (obj combined)

def combineService (metadataPolicyCrit : Option (List String)) (merged : Metadata)
    (service : String × List (String × Members)) : Except PolicyError Metadata :=
  service.2.foldlM (fun merged property =>
    combineRules metadataPolicyCrit merged service.1 property.1 property.2) merged

def combineStatement (merged : Metadata) (statement : PolicyStatement) :
    Except PolicyError Metadata :=
  match statement.metadataPolicy with
  | some policy => policy.foldlM (combineService statement.metadataPolicyCrit) merged
  | none => .ok merged

/-- The statements are those of the chain, the one about the leaf first. -/
def combineMetadataPolicies (statements : List PolicyStatement) : Except PolicyError Metadata :=
  if statements = [] then .error (.federation .generic "Chain is empty")
  else statements.reverse.foldlM combineStatement []

/-! ## Applying -/

def splitScope (scope : String) : List String := (split scope ' ').filter (· ≠ "")

/-- What an operator does to a metadata parameter. -/
inductive Action
  | keep
  | set (value : Value)
  | delete

def isNullOrUndefined : Value → Bool
  | null | undefined => true
  | _ => false

/-- What an operator does to a parameter, from its value or the inherited member in its place. -/
def operate (path : String) (op : Operator) (policyValue targetValue : Value) :
    Except PolicyError Action :=
  let fails (message : String) :=
    Except.error (PolicyError.validation message path policyValue targetValue)
  match op with
  | .value =>
    match policyValue with
    | null => .ok .delete
    | v => .ok (.set v)
  | .add =>
    match if isNullOrUndefined targetValue then arr [] else targetValue, policyValue with
    | arr target, arr items => .ok (.set (arr (union target items)))
    | arr _, _ => .error .typeError
    | _, _ => fails "Cannot apply add policy because the target is not an array"
  | .default =>
    match targetValue with
    | undefined => .ok (.set policyValue)
    | _ => .ok .keep
  | .oneOf =>
    if isNullOrUndefined targetValue then .ok .keep
    else match policyValue with
      | arr items =>
        if includes items targetValue then .ok .keep
        else fails "Cannot apply one_of policy because the intersection is empty"
      | _ => fails "Cannot apply one_of policy because the value is not an array"
  | .subsetOf =>
    if isNullOrUndefined targetValue then .ok .keep
    else match targetValue, policyValue with
      | arr target, arr items => .ok (.set (arr (target.filter (includes items))))
      | arr _, _ => fails "Cannot apply subset_of policy because the value is not an array"
      | _, _ => fails "Cannot apply subset_of policy because the target is not an array"
  | .supersetOf =>
    if isNullOrUndefined targetValue then .ok .keep
    else match targetValue, policyValue with
      | arr target, arr items =>
        if items.all (includes target) then .ok .keep
        else fails "The target does not contain all the values from the policy superset"
      | arr _, _ => fails "Cannot apply superset_of policy because the value is not an array"
      | _, _ => fails "Cannot apply superset_of policy because the target is not an array"
  | .essential =>
    if policyValue.truthy && isNullOrUndefined targetValue then
      fails "The policy is required to have a value"
    else .ok .keep

def perform (leafMetadata : Metadata) (service property : String) : Action → Metadata
  | .keep => leafMetadata
  | .set value => setPropertyValue leafMetadata service property value
  | .delete => deleteProperty leafMetadata service property

/-- A string of a scope policy is a list of values. -/
def scopeValue (isScope : Bool) : Value → Value
  | str s => if isScope then arr ((splitScope s).map str) else str s
  | v => v

def applyOperator (service property : String) (leafMetadata : Metadata)
    (policy : Operator × Value) : Except PolicyError Metadata := do
  let action ← operate (service ++ "." ++ property) policy.1
    (scopeValue (property = "scope") policy.2) (getPropertyValue leafMetadata service property)
  return perform leafMetadata service property action

/-- The operators of a policy that are known, in their order of application. -/
def sortedPolicies (rules : Members) : List (Operator × Value) :=
  (rules.filterMap fun rule => (ofKey rule.1).map (·, rule.2)).mergeSort fun policyA policyB =>
    policyA.1.orderOfApplication ≤ policyB.1.orderOfApplication

/-- The values of a scope, while the operators are applied. -/
def openScope (leafMetadata : Metadata) (service property : String) : Metadata :=
  match decide (property = "scope"), getPropertyValue leafMetadata service property with
  | true, str scope =>
      setPropertyValue leafMetadata service property (arr ((splitScope scope).map str))
  | _, _ => leafMetadata

/-- The scope as a string again. -/
def closeScope (leafMetadata : Metadata) (service property : String) :
    Except PolicyError Metadata :=
  match decide (property = "scope"), getPropertyValue leafMetadata service property with
  | true, arr items =>
    match itemTexts items with
    | some texts =>
        .ok (setPropertyValue leafMetadata service property (str (" ".intercalate texts)))
    | none => .error .typeError
  | _, _ => .ok leafMetadata

def applyProperty (service : String) (leafMetadata : Metadata) (property : String × Value) :
    Except PolicyError Metadata := do
  if !property.2.truthy then return leafMetadata
  else
    let applied ← (sortedPolicies (spread property.2)).foldlM (applyOperator service property.1)
      (openScope leafMetadata service property.1)
    closeScope applied service property.1

/-- Policies apply to the entity types that the metadata has. -/
def applyService (leafMetadata : Metadata) (service : String × Members) :
    Except PolicyError Metadata :=
  if !hasEntityType leafMetadata service.1 then .ok leafMetadata
  else service.2.foldlM (applyProperty service.1) leafMetadata

def applyMetadataPolicyToMetadata (leafMetadata policyMetadata : Metadata) :
    Except PolicyError Metadata :=
  policyMetadata.foldlM applyService leafMetadata

end IdentityCommon.OpenidFederation
