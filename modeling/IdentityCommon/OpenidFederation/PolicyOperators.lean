import IdentityCommon.Ecma.Value
import IdentityCommon.Lib.Except

/-!
# Metadata policy operators

The operators of metadata policies of `openid-federation`: what values they take, how they are
combined, merged and ordered, and the schema of the policy of one parameter.

## Main definitions

- `Operator` — the seven operators, with their tables
- `union`, `intersect`, `includes` — arrays as sets, by identity of their elements
- `zMetadataPolicy` — the schema of the policy of a parameter

## Design notes

No two arrays or objects that are compared here are the same object, so they are never equal.
-/

namespace IdentityCommon.OpenidFederation

open IdentityCommon.Except AssocList Ecma Value

/-! ## Arrays as sets -/

/-- `v === w`, of values of different objects. -/
def strictEquals : Value → Value → Bool
  | leaf a, leaf b => a = b
  | _, _ => false

def includes (items : List Value) (v : Value) : Bool := items.any (strictEquals v)

/-- `[...new Set(items)]`. -/
def unique (items : List Value) : List Value :=
  items.foldl (fun seen v => if includes seen v then seen else seen ++ [v]) []

def intersect (operator1 operator2 : List Value) : List Value :=
  (unique operator1).filter (includes (unique operator2))

def union (operator1 operator2 : List Value) : List Value := unique (operator1 ++ operator2)

theorem eq_of_strictEquals {v w : Value} (h : strictEquals v w) : v = w := by
  cases v with
  | leaf a =>
    cases w with
    | leaf b => exact congrArg leaf (of_decide_eq_true h)
    | arr items => cases h
    | obj members => cases h
  | arr items => cases h
  | obj members => cases h

theorem mem_of_includes {items : List Value} {v : Value} (h : includes items v) : v ∈ items := by
  obtain ⟨w, hw, heq⟩ := List.any_eq_true.mp h
  exact eq_of_strictEquals heq ▸ hw

theorem includes_of_mem {items : List Value} {l : Leaf} (h : leaf l ∈ items) :
    includes items (leaf l) :=
  List.any_eq_true.mpr ⟨_, h, decide_eq_true rfl⟩

/-- The set has the values of the array, and no value that it includes twice. -/
theorem foldl_unique {items : List Value} :
    ∀ {seen : List Value}, seen.Pairwise (fun v w => ¬strictEquals w v) →
    (∀ v, v ∈ items.foldl (fun seen v => if includes seen v then seen else seen ++ [v]) seen ↔
      v ∈ seen ∨ v ∈ items) ∧
      (items.foldl (fun seen v => if includes seen v then seen else seen ++ [v]) seen).Pairwise
        (fun v w => ¬strictEquals w v) := by
  induction items with
  | nil =>
    intro seen hseen
    exact ⟨fun v => by simp, hseen⟩
  | cons x items ih =>
    intro seen hseen
    rw [List.foldl_cons]
    split
    case isTrue hx =>
      obtain ⟨hmem, hpairwise⟩ := ih hseen
      refine ⟨fun v => (hmem v).trans ?_, hpairwise⟩
      rw [List.mem_cons]
      refine ⟨Or.imp_right Or.inr, ?_⟩
      rintro (hv | rfl | hv)
      · exact Or.inl hv
      · exact Or.inl (mem_of_includes hx)
      · exact Or.inr hv
    case isFalse hx =>
      have hpairwise : (seen ++ [x]).Pairwise fun v w => ¬strictEquals w v := by
        refine List.pairwise_append.mpr ⟨hseen, List.pairwise_singleton .., fun v hv w hw heq => ?_⟩
        rw [List.mem_singleton.mp hw] at heq
        exact hx (List.any_eq_true.mpr ⟨v, hv, heq⟩)
      obtain ⟨hmem, hpairwise⟩ := ih hpairwise
      refine ⟨fun v => (hmem v).trans ?_, hpairwise⟩
      rw [List.mem_append, List.mem_singleton, List.mem_cons, or_assoc]

@[simp] theorem mem_unique {items : List Value} {v : Value} : v ∈ unique items ↔ v ∈ items := by
  rw [unique, (foldl_unique List.Pairwise.nil).1 v]
  simp

theorem pairwise_unique (items : List Value) :
    (unique items).Pairwise fun v w => ¬strictEquals w v :=
  (foldl_unique List.Pairwise.nil).2

@[simp] theorem mem_union {a b : List Value} {v : Value} : v ∈ union a b ↔ v ∈ a ∨ v ∈ b := by
  rw [union, mem_unique, List.mem_append]

theorem mem_of_mem_intersect {a b : List Value} {v : Value} (h : v ∈ intersect a b) :
    v ∈ a ∧ v ∈ b := by
  obtain ⟨ha, hb⟩ := List.mem_filter.mp h
  exact ⟨mem_unique.mp ha, mem_unique.mp (mem_of_includes hb)⟩

/-! ## Operators -/

inductive Operator
  | add
  | default
  | essential
  | oneOf
  | subsetOf
  | supersetOf
  | value
  deriving DecidableEq

inductive MetadataMergeStrategy
  | operatorValuesEqual
  | union
  | intersection
  | logicalOr
  | intersectionMayBeEmpty
  deriving DecidableEq

namespace Operator

def key : Operator → String
  | add => "add"
  | default => "default"
  | essential => "essential"
  | oneOf => "one_of"
  | subsetOf => "subset_of"
  | supersetOf => "superset_of"
  | value => "value"

def canBeCombinedWith : Operator → List String
  | add => ["value", "default", "subset_of", "superset_of", "essential"]
  | default => ["value", "add", "one_of", "subset_of", "superset_of", "essential"]
  | essential => ["add", "default", "one_of", "subset_of", "superset_of", "value"]
  | oneOf => ["value", "default", "essential"]
  | subsetOf => ["value", "add", "default", "superset_of", "essential"]
  | supersetOf => ["value", "add", "default", "subset_of", "essential"]
  | value => ["add", "default", "one_of", "subset_of", "superset_of", "essential"]

def orderOfApplication : Operator → ℕ
  | value => 0
  | add => 1
  | default => 2
  | oneOf => 3
  | subsetOf => 4
  | supersetOf => 5
  | essential => 6

def mergeStrategy : Operator → MetadataMergeStrategy
  | add | supersetOf => .union
  | default | value => .operatorValuesEqual
  | essential => .logicalOr
  | oneOf => .intersection
  | subsetOf => .intersectionMayBeEmpty

def isString : Value → Bool
  | str _ => true
  | _ => false

def isNumber : Value → Bool
  | num _ => true
  | _ => false

/-- Whether a value is one that the operator takes. -/
def operatorSchema : Operator → Value → Bool
  | add, arr items | oneOf, arr items | subsetOf, arr items | supersetOf, arr items =>
    items.all isString || items.all isNumber
  | essential, Value.bool _ => true
  | default, str _ | default, num _ | default, Value.bool _ | default,
      obj _ | default, arr _ => true
  | value, str _ | value, num _ | value, Value.bool _ | value, obj _ | value,
      arr _ | value, null => true
  | _, _ => false

end Operator

open Operator

def allSupportedPolicies : List Operator :=
  [add, default, essential, oneOf, subsetOf, supersetOf, value]

/-- The operator that a key names. -/
def ofKey (key : String) : Option Operator := allSupportedPolicies.find? (·.key = key)

/-- Whether every object has a member of this name. -/
def isInherited (name : String) : Bool :=
  match inherited name with
  | undefined => false
  | _ => true

/-- `key in allSupportedPolicies`, which holds of inherited members too. -/
def isExistingPolicyKey (key : String) : Bool := (ofKey key).isSome || isInherited key

theorem ofKey_key (op : Operator) : ofKey op.key = some op := by
  cases op <;> rfl

theorem ofKey_eq_some {key : String} {op : Operator} : ofKey key = some op ↔ op.key = key := by
  constructor
  · intro h
    simpa using List.find?_some h
  · rintro rfl
    exact ofKey_key op

theorem key_injective : Function.Injective Operator.key := fun op op' h =>
  Option.some.inj ((ofKey_key op).symm.trans (h ▸ ofKey_key op'))

/-! ## The policy of a parameter -/

inductive PolicyErrorStage
  | generic
  | validation
  | metadataPolicyCrit
  deriving DecidableEq

inductive PolicyError
  | federation (stage : PolicyErrorStage) (message : String)
  | merge (message path : String)
  | validation (message path : String) (policyValue targetValue : Value)
  /-- the messages of the issues of a schema -/
  | schema (messages : List String)
  | typeError

abbrev Members := List (String × Value)

def isSubset : Option Value → Option Value → Bool
  | some (arr values), some (arr ofValues) => values.all (includes ofValues)
  | _, _ => false

/-- A null value has no values for `add`, `subset_of` and `superset_of`. -/
def nullAsEmpty : Value → Value
  | null => arr []
  | v => v

def isNull : Value → Bool
  | null => true
  | _ => false

/-- The conditions on combinations of the operators that a policy has. -/
def conditionalCombinationErrors (policy : Members) : List String :=
  let get (op : Operator) := policy.lookup op.key
  let has (op : Operator) := (get op).isSome
  let values := (get value).map nullAsEmpty
  let valueIsNull := (get value).any isNull
  (if has value then
    (if valueIsNull && has default then ["'value' null can not be combined with 'default'"]
      else []) ++
    (if valueIsNull && (match get essential with | some (Value.bool true) => true | _ => false) then
      ["'value' null can not be combined with 'essential' true"] else []) ++
    (if has add && !isSubset (get add) values then
      ["the values of 'add' must be a subset of the values of 'value'"] else []) ++
    (if has oneOf && !(match get oneOf, get value with
        | some (arr items), some v => !valueIsNull && includes items v
        | _, _ => false) then
      ["the value of 'value' must be among the 'one_of' values"] else []) ++
    (if has subsetOf && !isSubset values (get subsetOf) then
      ["the values of 'value' must be a subset of the values of 'subset_of'"] else []) ++
    (if has supersetOf && !isSubset (get supersetOf) values then
      ["the values of 'value' must be a superset of the values of 'superset_of'"] else [])
  else []) ++
  (if has add && has subsetOf && !isSubset (get add) (get subsetOf) then
    ["the values of 'add' must be a subset of the values of 'subset_of'"] else []) ++
  (if has subsetOf && has supersetOf && !isSubset (get supersetOf) (get subsetOf) then
    ["the values of 'subset_of' must be a superset of the values of 'superset_of'"] else [])

/-- The message about an operator that is there with one that it cannot be combined with. Reading
the operator of an inherited name throws. -/
def combinationIssues (policy : Members) (dataKey : String) : Except PolicyError (List String) :=
  if !isExistingPolicyKey dataKey then .ok []
  else match ofKey dataKey with
    | none => .error .typeError
    | some op =>
      if (keys policy).any fun key => key ≠ op.key ∧ isExistingPolicyKey key ∧
          key ∉ op.canBeCombinedWith then
        .ok ["policy operator '" ++ op.key ++ "' can only be combined with one of: [" ++
          ", ".intercalate op.canBeCombinedWith ++ "]. keys: [" ++
          ",".intercalate (keys policy) ++ "]"]
      else .ok []

/-- `zMetadataPolicy.safeParse`; parsing leaves the values. -/
def zMetadataPolicy (policy : Members) : Except PolicyError Unit := do
  if allSupportedPolicies.any fun op => !(policy.lookup op.key).all op.operatorSchema then
    .error (.schema ["Invalid input"])
  else
    let issues ← (keys policy).mapM (combinationIssues policy)
    let messages := issues.flatten ++ conditionalCombinationErrors policy
    if messages = [] then .ok () else .error (.schema messages)

end IdentityCommon.OpenidFederation
