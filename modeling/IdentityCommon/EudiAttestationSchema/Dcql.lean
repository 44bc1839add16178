import IdentityCommon.Ecma.JsonRoundTrip
import Mathlib.Data.Finset.Card
import Mathlib.Data.Fintype.Card
import Mathlib.Logic.Relation

/-!
# Claims of a JSON Schema

The claims that a query asks for are collected from a schema, which is a graph: objects may be
shared between branches and may contain themselves.

## Main definitions

- `Memory`, `SchemaValue` — the objects and arrays of a schema
- `collectClaimsFromSchema`, `getClaimsFromSchema` — the collection
- `Edge`, `Leads`, `IsLeaf` — what leads to a position, and the positions without further structure
- `Skips`, `Walks`, `Stops` — what the collection leaves out, where it gets and where it stops
- `Followed`, `Uniform` — schemas of which nothing is left out, and with schemas at each position
  that are alike

## Main results

- `mem_claimsAt_iff` — one step of the collection
- `mem_collectClaimsFromSchema_iff` — what is collected is where the walk stops
- `claimsAreLeaves_iff` — when the claims of a schema whose edges are all followed are its leaves
-/

namespace IdentityCommon.EudiAttestationSchema

open Ecma Relation

/-! ## Schemas -/

/-- A value in a schema: an object or an array, by its identity, a string, or something else. -/
inductive SchemaValue (ι : Type)
  | ref (i : ι)
  | text (s : String)
  | primitive
  deriving DecidableEq

/-- What an object or an array holds. -/
inductive Cell (ι : Type)
  | object (members : List (String × SchemaValue ι))
  | array (elements : List (SchemaValue ι))

abbrev Memory (ι : Type) := ι → Cell ι

inductive DcqlClaimsPathComponent
  | name (s : String)
  | index (n : ℕ)
  | null
  deriving DecidableEq

def DcqlClaimsPathComponent.toValue : DcqlClaimsPathComponent → Value
  | name s => .str s
  | index n => .num (.ofInt n)
  | null => .null

/-- A claim is its path. -/
abbrev DcqlClaim := List DcqlClaimsPathComponent

section

variable {ι : Type} [DecidableEq ι] (memory : Memory ι)

/-- The identity of a plain object, with its members. -/
def plainObject : SchemaValue ι → Option (ι × List (String × SchemaValue ι))
  | .ref i => match memory i with
    | .object members => some (i, members)
    | .array _ => none
  | _ => none

/-- The elements of an array. -/
def elements : SchemaValue ι → Option (List (SchemaValue ι))
  | .ref i => match memory i with
    | .object _ => none
    | .array elements => some elements
  | _ => none

/-- A member of a plain object. -/
def member (node : SchemaValue ι) (name : String) : Option (SchemaValue ι) :=
  (plainObject memory node).bind fun object => object.2.lookup name

/-- Whether `node.type` is the type or an array that includes it. -/
def hasType (node : SchemaValue ι) (type : String) : Bool :=
  (member memory node "type").any fun declared =>
    declared = .text type || (elements memory declared).any (·.contains (.text type))

def isArraySchema (node : SchemaValue ι) : Bool :=
  hasType memory node "array" || (member memory node "items").isSome ||
    (member memory node "prefixItems").isSome

/-- The schemas in a member, where it is an array that is not empty. -/
def positionalSchemas (node : SchemaValue ι) (name : String) : Option (List (SchemaValue ι)) :=
  ((member memory node name).bind (elements memory)).filter (!·.isEmpty)

/-- Positional item schemas of a tuple-typed array, either as `prefixItems` or as the array form of
`items`. An empty array carries no positional constraint and is not treated as a tuple. -/
def getTupleItemSchemas (node : SchemaValue ι) : Option (List (SchemaValue ι)) :=
  (positionalSchemas memory node "prefixItems").or (positionalSchemas memory node "items")

/-- The members of `node.properties`, where it is a plain object. -/
def properties (node : SchemaValue ι) : Option (List (String × SchemaValue ι)) :=
  (member memory node "properties").bind fun value => (plainObject memory value).map Prod.snd

def isObjectSchema (node : SchemaValue ι) : Bool :=
  (properties memory node).isSome || hasType memory node "object"

/-- The variants of the combinators. -/
def variants (node : SchemaValue ι) : List (SchemaValue ι) :=
  ["allOf", "anyOf", "oneOf"].flatMap fun key =>
    ((member memory node key).bind (elements memory)).getD []

/-! ## Collection -/

/-- A claims path pointer MUST be non-empty, so the schema root itself never yields a claim. -/
def pushClaim (path : List DcqlClaimsPathComponent) : List DcqlClaim :=
  if path.length = 0 then [] else [path]

mutual

/-- The claims below an array schema. Tuple entries are addressed by their index, uniformly typed
elements by `null`, and an array of primitives yields the array-valued claim itself. -/
def collectClaimsFromArraySchema [Fintype ι] (node : SchemaValue ι)
    (path : List DcqlClaimsPathComponent) (ancestors : Finset ι) : List DcqlClaim :=
  match getTupleItemSchemas memory node with
  | some tupleItems => tupleItems.zipIdx.flatMap fun (itemSchema, index) =>
    if isObjectSchema memory itemSchema || isArraySchema memory itemSchema then
      collectClaimsFromSchema itemSchema (path ++ [.index index]) ancestors
    else pushClaim (path ++ [.index index])
  | none => match member memory node "items" with
    | some items =>
      if isObjectSchema memory items || isArraySchema memory items then
        collectClaimsFromSchema items (path ++ [.null]) ancestors
      else pushClaim path
    | none => pushClaim path
termination_by 4 * (Fintype.card ι - ancestors.card) + 1

/-- The nodes on the current branch are left out. -/
def collectClaimsFromSchema [Fintype ι] (node : SchemaValue ι) (path : List DcqlClaimsPathComponent)
    (ancestors : Finset ι) : List DcqlClaim :=
  match plainObject memory node with
  | none => pushClaim path
  | some (i, _) =>
    if i ∈ ancestors then [] else collectClaimsFromSchemaNode node path (insert i ancestors)
termination_by 4 * (Fintype.card ι - ancestors.card)
decreasing_by
  rename_i hfresh
  have := Finset.card_insert_of_notMem hfresh
  have := Finset.card_le_univ (insert i ancestors)
  omega

def collectClaimsFromProperties [Fintype ι] (properties : List (String × SchemaValue ι))
    (path : List DcqlClaimsPathComponent) (ancestors : Finset ι) : List DcqlClaim :=
  properties.flatMap fun (propertyName, propertySchema) =>
    if isArraySchema memory propertySchema then
      collectClaimsFromArraySchema propertySchema (path ++ [.name propertyName]) ancestors
    else if isObjectSchema memory propertySchema then
      collectClaimsFromSchema propertySchema (path ++ [.name propertyName]) ancestors
    else pushClaim (path ++ [.name propertyName])
termination_by 4 * (Fintype.card ι - ancestors.card) + 2

def collectClaimsFromSchemaNode [Fintype ι] (node : SchemaValue ι)
    (path : List DcqlClaimsPathComponent) (ancestors : Finset ι) : List DcqlClaim :=
  (variants memory node).flatMap (fun variant => collectClaimsFromSchema variant path ancestors) ++
    match properties memory node with
    | some properties => collectClaimsFromProperties properties path ancestors
    | none =>
      if isArraySchema memory node then collectClaimsFromArraySchema node path ancestors
      else pushClaim path
termination_by 4 * (Fintype.card ι - ancestors.card) + 3

end

/-- `JSON.stringify(claim.path)` -/
def pathKey (path : DcqlClaim) : Option (List Char) :=
  Json.stringify (.arr (path.map DcqlClaimsPathComponent.toValue))

/-- The first claim for each key. -/
def dedupeClaims (claims : List DcqlClaim) : List DcqlClaim :=
  (claims.foldl (fun (deduped : List (Option (List Char) × DcqlClaim)) claim =>
    if pathKey claim ∈ deduped.map Prod.fst then deduped
    else deduped ++ [(pathKey claim, claim)]) []).map Prod.snd

structure ResolvedSchemaReference (ι : Type) where
  /-- `typeMetadata?.claims` -/
  typeMetadataClaims : Option (List DcqlClaim)
  parsedSchema : Option (SchemaValue ι)

/-- Type metadata already states every claim as a claims path pointer, a JSON Schema is walked to
infer the paths. -/
def getClaimsFromSchema [Fintype ι] (schemaRef : Option (ResolvedSchemaReference ι)) :
    List DcqlClaim :=
  let typeMetadataClaims := (schemaRef.bind (·.typeMetadataClaims)).getD []
  if typeMetadataClaims.length > 0 then dedupeClaims typeMetadataClaims
  else match schemaRef.bind (·.parsedSchema) with
    | none => []
    | some schema => dedupeClaims (collectClaimsFromSchema memory schema [] ∅)

/-! ## What the claims are for -/

/-- How a schema is met: as a property, as an entry of a tuple, or otherwise. -/
inductive Met
  | schema
  | property
  | entry
  deriving DecidableEq

/-- A schema that is an object or an array, or has a branch that is. -/
def Structured (node : SchemaValue ι) : Prop :=
  ∃ branch, ReflTransGen (fun v u => u ∈ variants memory v) node branch ∧
    (isObjectSchema memory branch ∨ isArraySchema memory branch)

/-- What leads from a schema to another: to a branch, at the same position, or to further
structure. -/
inductive Edge : SchemaValue ι → Option DcqlClaimsPathComponent → Met → SchemaValue ι → Prop
  | variant {v u : SchemaValue ι} : u ∈ variants memory v → Edge v none .schema u
  | property {v u : SchemaValue ι} {members : List (String × SchemaValue ι)} {name : String} :
    properties memory v = some members → (name, u) ∈ members →
    Edge v (some (.name name)) .property u
  | entry {v u : SchemaValue ι} {items : List (SchemaValue ι)} {k : ℕ} :
    getTupleItemSchemas memory v = some items → items[k]? = some u →
    Edge v (some (.index k)) .entry u
  | items {v u : SchemaValue ι} : getTupleItemSchemas memory v = none →
      member memory v "items" = some u →
    Structured memory u → Edge v (some .null) .schema u

/-- A schema declares further structure that can be addressed. -/
def Declares (node : SchemaValue ι) : Prop :=
  ∃ component met child, Edge memory node (some component) met child

/-- The node that a schema is, if it is one. -/
def nodeOf (node : SchemaValue ι) : Finset ι := ((plainObject memory node).map Prod.fst).toFinset

/-- A schema applies at a path, on a branch with these nodes, none of them passed twice. -/
inductive Leads (root : SchemaValue ι) : List DcqlClaimsPathComponent → SchemaValue ι →
    Finset ι → Prop
  | root : Leads root [] root (nodeOf memory root)
  | step {path : List DcqlClaimsPathComponent} {v u : SchemaValue ι} {passed : Finset ι}
    {component : Option DcqlClaimsPathComponent} {met : Met} :
    Leads root path v passed → Edge memory v component met u → Disjoint (nodeOf memory u) passed →
      Leads root (path ++ component.toList) u (nodeOf memory u ∪ passed)

/-- A position where no schema that applies declares further structure. -/
def IsLeaf (root : SchemaValue ι) (path : List DcqlClaimsPathComponent) : Prop :=
  path ≠ [] ∧ (∃ v passed, Leads memory root path v passed) ∧
    ∀ v passed, Leads memory root path v passed → ¬ Declares memory v

/-- The claims are the leaves of the schema, each of them once. -/
structure ClaimsAreLeaves [Fintype ι] (root : SchemaValue ι) (claims : List DcqlClaim) : Prop where
  nodup : claims.Nodup
  nonempty : [] ∉ claims
  leaves : ∀ path, path ∈ claims ↔ IsLeaf memory root path
  prefixFree : ∀ path ∈ claims, ∀ path' ∈ claims, path <+: path' → path = path'

/-! ## Where the collection gets -/

/-- A property that is an array schema. -/
def ByArray (met : Met) (node : SchemaValue ι) : Prop := met = .property ∧ isArraySchema memory node

instance (met : Met) (node : SchemaValue ι) : Decidable (ByArray memory met node) :=
  inferInstanceAs (Decidable (_ ∧ _))

/-- A property or an entry that is neither an object schema nor an array schema. -/
def Unstructured (met : Met) (node : SchemaValue ι) : Prop :=
  met ≠ .schema ∧ ¬ isObjectSchema memory node ∧ ¬ isArraySchema memory node

/-- The edges that are left out: to the branches of a property that is an array schema, and of
properties and entries that are neither objects nor arrays; to the properties of a property that is
an array schema; to entries and items beside properties, and to items that are objects or arrays
only by their branches. -/
def Skips (met : Met) (node : SchemaValue ι) (child : SchemaValue ι) :
    Option DcqlClaimsPathComponent → Prop
  | none => ByArray memory met node ∨ Unstructured memory met node
  | some (.name _) => ByArray memory met node
  | some (.index _) => ¬ ByArray memory met node ∧ properties memory node ≠ none
  | some .null => ¬ ByArray memory met node ∧ properties memory node ≠ none ∨
      ¬ isObjectSchema memory child ∧ ¬ isArraySchema memory child

/-- A node that is among the ancestors, where these are looked at. -/
def Blocked (met : Met) (node : SchemaValue ι) (ancestors : Finset ι) : Prop :=
  ¬ ByArray memory met node ∧ ¬ Unstructured memory met node ∧
  ¬ Disjoint (nodeOf memory node) ancestors

/-- The ancestors of what is below a node. -/
def remember (met : Met) (node : SchemaValue ι) (ancestors : Finset ι) : Finset ι :=
  if ByArray memory met node then ancestors else nodeOf memory node ∪ ancestors

/-- The collection gets to a schema, with these ancestors. -/
inductive Walks (root : SchemaValue ι) : List DcqlClaimsPathComponent → Met → SchemaValue ι →
    Finset ι → Prop
  | root : Walks root [] .schema root ∅
  | step {path : List DcqlClaimsPathComponent} {met met' : Met} {v u : SchemaValue ι}
      {ancestors : Finset ι}
    {component : Option DcqlClaimsPathComponent} :
    Walks root path met v ancestors → ¬ Blocked memory met v ancestors →
    Edge memory v component met' u →
      ¬ Skips memory met v u component →
      Walks root (path ++ component.toList) met' u (remember memory met v ancestors)

/-- Nothing further is addressed below a schema. An object schema without any property is not even
addressed itself. -/
def Stops (met : Met) (node : SchemaValue ι) (ancestors : Finset ι) : Prop :=
  ¬ Blocked memory met node ancestors ∧
    (∀ component met' child, Edge memory node (some component) met' child →
      Skips memory met node child (some component)) ∧
    (ByArray memory met node ∨ properties memory node ≠ some [])

/-- The claims that are collected at a schema. -/
def claimsAt [Fintype ι] (met : Met) (node : SchemaValue ι) (path : List DcqlClaimsPathComponent)
    (ancestors : Finset ι) : List DcqlClaim :=
  match met with
  | .schema => collectClaimsFromSchema memory node path ancestors
  | .property =>
    if isArraySchema memory node then collectClaimsFromArraySchema memory node path ancestors
    else if isObjectSchema memory node then collectClaimsFromSchema memory node path ancestors
    else pushClaim path
  | .entry =>
    if isObjectSchema memory node || isArraySchema memory node then
      collectClaimsFromSchema memory node path ancestors
    else pushClaim path

/-! ## One step -/

variable {memory}

theorem mem_pushClaim {path q : List DcqlClaimsPathComponent} :
    q ∈ pushClaim path ↔ q = path ∧ path ≠ [] := by
  unfold pushClaim
  cases path with
  | nil => simp
  | cons c path => simp

theorem isArraySchema_of_items {node items : SchemaValue ι}
    (h : member memory node "items" = some items) :
    isArraySchema memory node = true := by
  simp [isArraySchema, h]

theorem isArraySchema_of_tuple {node : SchemaValue ι} {items : List (SchemaValue ι)}
    (h : getTupleItemSchemas memory node = some items) : isArraySchema memory node = true := by
  have hmember : ∀ name, positionalSchemas memory node name = some items →
      (member memory node name).isSome := by
    intro name hname
    obtain ⟨value, hvalue, -⟩ := Option.bind_eq_some_iff.mp (Option.filter_eq_some_iff.mp hname).1
    rw [hvalue]
    rfl
  rcases Option.or_eq_some_iff.mp h with hfirst | ⟨-, hitems⟩
  · simp [isArraySchema, hmember _ hfirst]
  · simp [isArraySchema, hmember _ hitems]

omit [DecidableEq ι] in
theorem ne_nil_of_tuple {node : SchemaValue ι} {items : List (SchemaValue ι)}
    (h : getTupleItemSchemas memory node = some items) : items ≠ [] := by
  have hne : ∀ name, positionalSchemas memory node name = some items → items ≠ [] :=
      fun name hname => by
    have hempty := (Option.filter_eq_some_iff.mp hname).2
    intro hnil
    rw [hnil] at hempty
    cases hempty
  rcases Option.or_eq_some_iff.mp h with hfirst | ⟨-, hitems⟩
  · exact hne _ hfirst
  · exact hne _ hitems

theorem structured_of_direct {u : SchemaValue ι}
    (h : isObjectSchema memory u ∨ isArraySchema memory u) :
    Structured memory u := ⟨u, .refl, h⟩

theorem mem_collectClaimsFromProperties [Fintype ι] {members : List (String × SchemaValue ι)}
    {path q : List DcqlClaimsPathComponent} {ancestors : Finset ι} :
    q ∈ collectClaimsFromProperties memory members path ancestors ↔
      ∃ name u, (name, u) ∈ members ∧
      q ∈ claimsAt memory .property u (path ++ [.name name]) ancestors := by
  rw [collectClaimsFromProperties, List.mem_flatMap]
  simp only [claimsAt, Prod.exists]

theorem mem_collectClaimsFromArraySchema [Fintype ι] {node : SchemaValue ι}
    {path q : List DcqlClaimsPathComponent} {ancestors : Finset ι} :
    q ∈ collectClaimsFromArraySchema memory node path ancestors ↔
      (∃ items k u, getTupleItemSchemas memory node = some items ∧ items[k]? = some u ∧
        q ∈ claimsAt memory .entry u (path ++ [.index k]) ancestors) ∨
      getTupleItemSchemas memory node = none ∧
        ((∃ u, member memory node "items" = some u ∧
          (isObjectSchema memory u ∨ isArraySchema memory u) ∧
          q ∈ claimsAt memory .schema u (path ++ [.null]) ancestors) ∨
        (∀ u, member memory node "items" = some u → ¬ isObjectSchema memory u ∧
          ¬ isArraySchema memory u) ∧
          q ∈ pushClaim path) := by
  rw [collectClaimsFromArraySchema]
  cases htuple : getTupleItemSchemas memory node with
  | some items =>
    simp only [List.mem_flatMap, Prod.exists, List.mem_zipIdx_iff_getElem?, claimsAt]
    constructor
    · rintro ⟨u, k, hu, hq⟩
      exact .inl ⟨items, k, u, rfl, hu, hq⟩
    · rintro (⟨items', k, u, hitems, hu, hq⟩ | ⟨hnone, -⟩)
      · cases hitems
        exact ⟨u, k, hu, hq⟩
      · cases hnone
  | none =>
    cases hitems : member memory node "items" with
    | none => simp
    | some u =>
      by_cases hu : (isObjectSchema memory u || isArraySchema memory u) = true
      · dsimp only
        rw [if_pos hu]
        rw [Bool.or_eq_true] at hu
        constructor
        · exact fun hq => .inr ⟨rfl, .inl ⟨u, rfl, hu, hq⟩⟩
        · rintro (⟨_, _, _, hnone, -⟩ | ⟨-, ⟨_, hother, -, hq⟩ | ⟨hnot, -⟩⟩)
          · cases hnone
          · cases hother
            exact hq
          · exact absurd hu (not_or.mpr (hnot u rfl))
      · dsimp only
        rw [if_neg hu]
        rw [Bool.or_eq_true, not_or] at hu
        constructor
        · exact fun hq => .inr ⟨rfl, .inr ⟨fun _ hother => by cases hother; exact hu, hq⟩⟩
        · rintro (⟨_, _, _, hnone, -⟩ | ⟨-, ⟨_, hother, hstructured, -⟩ | ⟨-, hq⟩⟩)
          · cases hnone
          · cases hother
            exact absurd hstructured (not_or.mpr hu)
          · exact hq

/-! A schema that is neither an object nor an array has branches only. -/

section

variable {node child : SchemaValue ι} {met met' : Met} {component : Option DcqlClaimsPathComponent}

theorem Unstructured.properties_eq_none (h : Unstructured memory met node) :
    properties memory node = none := by
  rw [← Option.not_isSome_iff_eq_none]
  intro hsome
  exact h.2.1 (by simp [isObjectSchema, hsome])

theorem Unstructured.component_eq_none (h : Unstructured memory met node)
    (hedge : Edge memory node component met' child) : component = none := by
  cases hedge with
  | variant => rfl
  | property hmembers =>
    rw [h.properties_eq_none] at hmembers
    cases hmembers
  | entry hitems => exact absurd (isArraySchema_of_tuple hitems) h.2.2
  | items _ hu => exact absurd (isArraySchema_of_items hu) h.2.2

/-- Only a property is met as an array schema, and it is not a property of one. -/
theorem not_byArray_of_byArray (h : ByArray memory met node)
    (hedge : Edge memory node component met' child)
    (hskip : ¬ Skips memory met node child component) : ¬ ByArray memory met' child := by
  rintro ⟨rfl, -⟩
  cases hedge with
  | property => exact hskip h

omit [DecidableEq ι] in
theorem member_eq_none (hplain : plainObject memory node = none) (name : String) :
    member memory node name = none := by
  rw [member, hplain, Option.bind_none]

theorem not_edge (hplain : plainObject memory node = none) :
    ¬ Edge memory node component met' child := by
  intro hedge
  cases hedge with
  | variant h => simp [variants, member_eq_none hplain] at h
  | property h => simp [properties, member_eq_none hplain] at h
  | entry h => simp [getTupleItemSchemas, positionalSchemas, member_eq_none hplain] at h
  | items _ h => simp [member_eq_none hplain] at h

end

section

variable [Fintype ι] {node : SchemaValue ι} {path q : List DcqlClaimsPathComponent}
    {ancestors : Finset ι} {met : Met}

/-- The claims that are collected in one step: the position itself, or those below the edges that
are not left out. -/
def CollectedAt (memory : Memory ι) (met : Met) (node : SchemaValue ι)
    (path : List DcqlClaimsPathComponent) (ancestors : Finset ι) (q : DcqlClaim) : Prop :=
  Stops memory met node ancestors ∧ q ∈ pushClaim path ∨
    ¬ Blocked memory met node ancestors ∧
    ∃ component met' child, Edge memory node component met' child ∧
      ¬ Skips memory met node child component ∧
      q ∈ claimsAt memory met' child (path ++ component.toList) (remember memory met node ancestors)

/-- A property that is an array schema. -/
theorem mem_claimsAt_array (h : ByArray memory met node) :
    q ∈ claimsAt memory met node path ancestors ↔ CollectedAt memory met node path ancestors q := by
  have hblocked : ¬ Blocked memory met node ancestors := fun hb => hb.1 h
  have hremember : remember memory met node ancestors = ancestors := if_pos h
  have hclaims : claimsAt memory met node path ancestors =
      collectClaimsFromArraySchema memory node path ancestors := by
    obtain ⟨rfl, harray⟩ := h
    rw [claimsAt, if_pos harray]
  rw [hclaims, mem_collectClaimsFromArraySchema, CollectedAt, hremember]
  constructor
  · rintro (⟨items, k, u, hitems, hu, hq⟩ | ⟨htuple, ⟨u, hu, hstructured, hq⟩ | ⟨hnone, hq⟩⟩)
    · exact .inr ⟨hblocked, _, _, _, .entry hitems hu, fun hskip => hskip.1 h, hq⟩
    · refine .inr ⟨hblocked, _, _, _, .items htuple hu (structured_of_direct hstructured), ?_, hq⟩
      rintro (hskip | hskip)
      · exact hskip.1 h
      · exact absurd hstructured (not_or.mpr hskip)
    · refine .inl ⟨⟨hblocked, fun component met' child hedge => ?_, .inl h⟩, hq⟩
      cases hedge with
      | property => exact h
      | entry hitems => rw [htuple] at hitems; cases hitems
      | items _ hu => exact .inr (hnone _ hu)
  · rintro (⟨⟨-, hskips, -⟩, hq⟩ | ⟨-, component, met', child, hedge, hskip, hq⟩)
    · cases htuple : getTupleItemSchemas memory node with
      | some items =>
        obtain ⟨u, rest, rfl⟩ := List.exists_cons_of_ne_nil (ne_nil_of_tuple htuple)
        exact absurd h (hskips _ _ _ (.entry htuple (k := 0) rfl)).1
      | none =>
        refine .inr ⟨rfl, .inr ⟨fun u hu => ?_, hq⟩⟩
        by_contra hstructured
        rw [not_and_or, not_not, not_not] at hstructured
        rcases hskips _ _ _ (.items htuple hu (structured_of_direct hstructured)) with hskip | hskip
        · exact hskip.1 h
        · exact absurd hstructured (not_or.mpr hskip)
    · cases hedge with
      | variant => exact absurd (.inl h) hskip
      | property => exact absurd h hskip
      | entry hitems hu => exact .inl ⟨_, _, _, hitems, hu, hq⟩
      | items htuple hu hstructured =>
        refine .inr ⟨htuple, .inl ⟨_, hu, ?_, hq⟩⟩
        by_contra hdirect
        exact hskip (.inr (not_or.mp hdirect))

/-- A property or an entry that is neither an object nor an array. -/
theorem mem_claimsAt_unstructured (h : Unstructured memory met node) :
    q ∈ claimsAt memory met node path ancestors ↔ CollectedAt memory met node path ancestors q := by
  have hblocked : ¬ Blocked memory met node ancestors := fun hb => hb.2.1 h
  have ⟨hmet, hobject, harray⟩ := h
  have hproperties := h.properties_eq_none
  have hclaims : claimsAt memory met node path ancestors = pushClaim path := by
    cases met with
    | schema => exact absurd rfl hmet
    | property => rw [claimsAt, if_neg harray, if_neg hobject]
    | entry => rw [claimsAt, if_neg (by simp [hobject, harray])]
  rw [hclaims, CollectedAt]
  constructor
  · refine fun hq => .inl
      ⟨⟨hblocked, fun component met' child h' => ?_, .inr (by rw [hproperties]; nofun)⟩, hq⟩
    cases h.component_eq_none h'
  · rintro (⟨-, hq⟩ | ⟨-, component, met', child, h', hskip, -⟩)
    · exact hq
    · obtain rfl := h.component_eq_none h'
      exact absurd (.inr h) hskip

theorem mem_collectClaimsFromSchemaNode :
    q ∈ collectClaimsFromSchemaNode memory node path ancestors ↔
      (∃ u ∈ variants memory node, q ∈ claimsAt memory .schema u path ancestors) ∨
      (∃ members, properties memory node = some members ∧
        q ∈ collectClaimsFromProperties memory members path ancestors) ∨
      properties memory node = none ∧ (isArraySchema memory node ∧
          q ∈ collectClaimsFromArraySchema memory node path ancestors ∨
        ¬ isArraySchema memory node ∧ q ∈ pushClaim path) := by
  rw [collectClaimsFromSchemaNode, List.mem_append, List.mem_flatMap]
  refine or_congr Iff.rfl ?_
  cases properties memory node with
  | some members => simp
  | none =>
    by_cases harray : isArraySchema memory node = true
    · simp [harray]
    · simp [harray]

omit [Fintype ι] in
/-- Where a schema that is entered stops the walk, it has no properties. -/
theorem Stops.properties_eq_none (harray : ¬ ByArray memory met node)
    (h : Stops memory met node ancestors) : properties memory node = none := by
  obtain ⟨-, hskips, hsilent⟩ := h
  cases hmembers : properties memory node with
  | none => rfl
  | some members =>
    cases members with
    | nil => exact absurd hmembers (hsilent.resolve_left harray)
    | cons first rest =>
      exact absurd (hskips _ _ _ (.property hmembers List.mem_cons_self)) harray

/-- Without properties, what an array schema has goes on the same way as for a property. -/
theorem collectedAt_of_mem_array (hblocked : ¬ Blocked memory met node ancestors)
    (hproperties : properties memory node = none)
    (hq : q ∈ collectClaimsFromArraySchema memory node path (remember memory met node ancestors)) :
    CollectedAt memory met node path ancestors q := by
  have hbeside : ¬ (¬ ByArray memory met node ∧ properties memory node ≠ none) :=
    fun h => h.2 hproperties
  rcases mem_collectClaimsFromArraySchema.mp hq with
    ⟨items, k, u, hitems, hu, hq⟩ | ⟨htuple, ⟨u, hu, hdirect, hq⟩ | ⟨hnone, hq⟩⟩
  · exact .inr ⟨hblocked, _, _, _, .entry hitems hu, hbeside, hq⟩
  · refine .inr ⟨hblocked, _, _, _, .items htuple hu (structured_of_direct hdirect), ?_, hq⟩
    exact not_or.mpr ⟨hbeside, fun hskip => absurd hdirect (not_or.mpr hskip)⟩
  · refine .inl ⟨⟨hblocked, fun component met' child hedge => ?_,
      .inr (by rw [hproperties]; nofun)⟩, hq⟩
    cases hedge with
    | property hmembers => rw [hproperties] at hmembers; cases hmembers
    | entry hitems => rw [htuple] at hitems; cases hitems
    | items _ hu => exact .inr (hnone _ hu)

/-- What is collected from a schema that is entered. -/
theorem collectedAt_of_mem (harray : ¬ ByArray memory met node)
    (hstructured : ¬ Unstructured memory met node) (hblocked : ¬ Blocked memory met node ancestors)
    (hq : q ∈ collectClaimsFromSchemaNode memory node path (remember memory met node ancestors)) :
    CollectedAt memory met node path ancestors q := by
  rcases mem_collectClaimsFromSchemaNode.mp hq with
    ⟨u, hu, hq⟩ | ⟨members, hmembers, hq⟩ | ⟨hproperties, ⟨-, hq⟩ | ⟨hnot, hq⟩⟩
  · refine .inr ⟨hblocked, none, .schema, u, .variant hu, not_or.mpr ⟨harray, hstructured⟩, ?_⟩
    rw [Option.toList_none, List.append_nil]
    exact hq
  · obtain ⟨name, u, hu, hq⟩ := mem_collectClaimsFromProperties.mp hq
    exact .inr ⟨hblocked, _, _, _, .property hmembers hu, harray, hq⟩
  · exact collectedAt_of_mem_array hblocked hproperties hq
  · refine .inl ⟨⟨hblocked, fun component met' child hedge => ?_,
      .inr (by rw [hproperties]; nofun)⟩, hq⟩
    cases hedge with
    | property hmembers => rw [hproperties] at hmembers; cases hmembers
    | entry hitems => exact absurd (isArraySchema_of_tuple hitems) hnot
    | items _ hu => exact absurd (isArraySchema_of_items hu) hnot

/-- The position itself is collected where everything is left out. -/
theorem mem_of_stops (harray : ¬ ByArray memory met node) (h : Stops memory met node ancestors)
    (hq : q ∈ pushClaim path) :
    q ∈ collectClaimsFromSchemaNode memory node path (remember memory met node ancestors) := by
  have hproperties := h.properties_eq_none harray
  have hbeside : ¬ (¬ ByArray memory met node ∧ properties memory node ≠ none) :=
    fun h => h.2 hproperties
  refine mem_collectClaimsFromSchemaNode.mpr (.inr (.inr ⟨hproperties, ?_⟩))
  by_cases his : isArraySchema memory node = true
  · refine .inl ⟨his, mem_collectClaimsFromArraySchema.mpr (.inr ?_)⟩
    have htuple : getTupleItemSchemas memory node = none := by
      cases htuple : getTupleItemSchemas memory node with
      | none => rfl
      | some items =>
        obtain ⟨u, rest, rfl⟩ := List.exists_cons_of_ne_nil (ne_nil_of_tuple htuple)
        exact absurd (h.2.1 _ _ _ (.entry htuple (k := 0) rfl)) hbeside
    refine ⟨htuple, .inr ⟨fun u hu => ?_, hq⟩⟩
    -- items with structure of their own would not be left out
    by_contra hdirect
    rw [not_and_or, not_not, not_not] at hdirect
    rcases h.2.1 _ _ _ (.items htuple hu (structured_of_direct hdirect)) with hskip | hskip
    · exact hbeside hskip
    · exact absurd hdirect (not_or.mpr hskip)
  · exact .inr ⟨his, hq⟩

/-- Claims below an edge that is not left out are collected. -/
theorem mem_of_edge {child : SchemaValue ι} {met' : Met}
    {component : Option DcqlClaimsPathComponent} (harray : ¬ ByArray memory met node)
    (hedge : Edge memory node component met' child)
    (hskip : ¬ Skips memory met node child component)
    (hq : q ∈ claimsAt memory met' child (path ++ component.toList)
      (remember memory met node ancestors)) :
    q ∈ collectClaimsFromSchemaNode memory node path (remember memory met node ancestors) := by
  rw [mem_collectClaimsFromSchemaNode]
  cases hedge with
  | variant hu =>
    rw [Option.toList_none, List.append_nil] at hq
    exact .inl ⟨_, hu, hq⟩
  | property hmembers hu =>
    exact .inr (.inl ⟨_, hmembers, mem_collectClaimsFromProperties.mpr ⟨_, _, hu, hq⟩⟩)
  | entry hitems hu =>
    have hproperties : properties memory node = none := by
      by_contra hproperties
      exact hskip ⟨harray, hproperties⟩
    exact .inr (.inr ⟨hproperties, .inl ⟨isArraySchema_of_tuple hitems,
      mem_collectClaimsFromArraySchema.mpr (.inl ⟨_, _, _, hitems, hu, hq⟩)⟩⟩)
  | items htuple hu _ =>
    obtain ⟨hbeside, hdirect⟩ := not_or.mp hskip
    have hproperties : properties memory node = none := by
      by_contra hproperties
      exact hbeside ⟨harray, hproperties⟩
    have hdirect := or_iff_not_and_not.mpr hdirect
    exact .inr (.inr ⟨hproperties, .inl ⟨isArraySchema_of_items hu,
      mem_collectClaimsFromArraySchema.mpr (.inr ⟨htuple, .inl ⟨_, hu, hdirect, hq⟩⟩)⟩⟩)

/-- A schema that is entered. -/
theorem mem_claimsAt_schema (harray : ¬ ByArray memory met node)
    (hstructured : ¬ Unstructured memory met node) :
    q ∈ claimsAt memory met node path ancestors ↔ CollectedAt memory met node path ancestors q := by
  have hclaims : claimsAt memory met node path ancestors =
      collectClaimsFromSchema memory node path ancestors := by
    cases met with
    | schema => rfl
    | property =>
      have hnot : isArraySchema memory node = false := by simpa [ByArray] using harray
      have hobject : isObjectSchema memory node = true := by
        simpa [Unstructured, hnot] using hstructured
      simp [claimsAt, hnot, hobject]
    | entry =>
      have hdirect : (isObjectSchema memory node || isArraySchema memory node) = true := by
        by_contra hdirect
        rw [Bool.or_eq_true, not_or] at hdirect
        exact hstructured ⟨nofun, hdirect⟩
      rw [claimsAt, if_pos hdirect]
  rw [hclaims, collectClaimsFromSchema]
  cases hplain : plainObject memory node with
  | none =>
    have hnode : nodeOf memory node = ∅ := by simp [nodeOf, hplain]
    have hblocked : ¬ Blocked memory met node ancestors := fun hb => hb.2.2 (by simp [hnode])
    constructor
    · refine fun hq => .inl ⟨⟨hblocked, fun _ _ _ h => absurd h (not_edge hplain), .inr ?_⟩, hq⟩
      simp [properties, member_eq_none hplain]
    · rintro (⟨-, hq⟩ | ⟨-, _, _, _, h, -⟩)
      · exact hq
      · exact absurd h (not_edge hplain)
  | some object =>
    obtain ⟨i, members⟩ := object
    have hnode : nodeOf memory node = {i} := by simp [nodeOf, hplain]
    dsimp only
    by_cases hi : i ∈ ancestors
    · -- the walk comes back to a schema that it has passed
      have hblocked : Blocked memory met node ancestors :=
        ⟨harray, hstructured, by simp [hnode, hi]⟩
      rw [if_pos hi]
      exact iff_of_false List.not_mem_nil (by simp [CollectedAt, Stops, hblocked])
    · have hblocked : ¬ Blocked memory met node ancestors := fun hb => hb.2.2 (by simp [hnode, hi])
      have hremember : remember memory met node ancestors = insert i ancestors := by
        rw [remember, if_neg harray, hnode]
        rfl
      rw [if_neg hi, ← hremember]
      constructor
      · exact collectedAt_of_mem harray hstructured hblocked
      · rintro (⟨hstops, hq⟩ | ⟨-, component, met', child, hedge, hskip, hq⟩)
        · exact mem_of_stops harray hstops hq
        · exact mem_of_edge harray hedge hskip hq

/-- One step of the collection. -/
theorem mem_claimsAt_iff :
    q ∈ claimsAt memory met node path ancestors ↔ CollectedAt memory met node path ancestors q := by
  by_cases harray : ByArray memory met node
  · exact mem_claimsAt_array harray
  · by_cases hstructured : Unstructured memory met node
    · exact mem_claimsAt_unstructured hstructured
    · exact mem_claimsAt_schema harray hstructured

/-! ## Runs -/

/-- What is below an edge is collected with more ancestors, or not from the elements of an array. -/
def rank (memory : Memory ι) (met : Met) (node : SchemaValue ι) (ancestors : Finset ι) : ℕ :=
  2 * (Fintype.card ι - ancestors.card) + if ByArray memory met node then 1 else 0

theorem rank_lt {component : Option DcqlClaimsPathComponent} {met' : Met} {child : SchemaValue ι}
    (hblocked : ¬ Blocked memory met node ancestors) (hedge : Edge memory node component met' child)
    (hskip : ¬ Skips memory met node child component) :
    rank memory met' child (remember memory met node ancestors) <
      rank memory met node ancestors := by
  unfold rank remember
  by_cases harray : ByArray memory met node
  · rw [if_pos harray, if_pos harray, if_neg (not_byArray_of_byArray harray hedge hskip)]
    omega
  · rw [if_neg harray, if_neg harray]
    obtain ⟨i, hi⟩ : ∃ i, nodeOf memory node = {i} := by
      cases hplain : plainObject memory node with
      | none => exact absurd hedge (not_edge hplain)
      | some object => exact ⟨object.1, by simp [nodeOf, hplain]⟩
    have hstructured : ¬ Unstructured memory met node := by
      intro h
      obtain rfl := h.component_eq_none hedge
      exact hskip (.inr h)
    have hfresh : i ∉ ancestors := by
      intro hmem
      exact hblocked ⟨harray, hstructured, by simp [hi, hmem]⟩
    have hcard := Finset.card_insert_of_notMem hfresh
    have hle := Finset.card_le_univ (insert i ancestors)
    rw [hi, ← Finset.insert_eq]
    split_ifs <;> omega

variable {root : SchemaValue ι}

/-- What is collected where the walk gets to is a path at which it stops. -/
theorem exists_stops (hwalks : Walks memory root path met node ancestors)
    (h : q ∈ claimsAt memory met node path ancestors) :
    q ≠ [] ∧ ∃ met' v ancestors', Walks memory root q met' v ancestors' ∧
    Stops memory met' v ancestors' := by
  -- the ancestors grow at every second step, at the latest
  induction hn : rank memory met node ancestors using Nat.strong_induction_on generalizing path met
    node ancestors with
  | _ n ih =>
    subst hn
    rcases mem_claimsAt_iff.mp h with ⟨hstops, hq⟩ | ⟨hblocked, component, met', child,
      hedge, hskip, hq⟩
    · obtain ⟨rfl, hne⟩ := mem_pushClaim.mp hq
      exact ⟨hne, _, _, _, hwalks, hstops⟩
    · exact ih _ (rank_lt hblocked hedge hskip) (.step hwalks hblocked hedge hskip) hq rfl

/-- What is collected where the walk gets to is collected from the root. -/
theorem mem_of_walks (hwalks : Walks memory root path met node ancestors)
    (h : q ∈ claimsAt memory met node path ancestors) :
    q ∈ collectClaimsFromSchema memory root [] ∅ := by
  induction hwalks with
  | root => exact h
  | step _ hblocked hedge hskip ih =>
      exact ih (mem_claimsAt_iff.mpr (.inr ⟨hblocked, _, _, _, hedge, hskip, h⟩))

/-- What is collected is where the walk stops. -/
theorem mem_collectClaimsFromSchema_iff :
    q ∈ collectClaimsFromSchema memory root [] ∅ ↔
      q ≠ [] ∧ ∃ met v ancestors, Walks memory root q met v ancestors ∧
      Stops memory met v ancestors := by
  constructor
  · exact fun h => exists_stops .root h
  · rintro ⟨hne, met, v, ancestors, hwalks, hstops⟩
    exact mem_of_walks hwalks (mem_claimsAt_iff.mpr (.inl ⟨hstops, mem_pushClaim.mpr ⟨rfl, hne⟩⟩))

end

/-! ## Claims that are there once -/

theorem toValue_injective : Function.Injective DcqlClaimsPathComponent.toValue := by
  intro c c' h
  match c, c' with
  | .name s, .name s' =>
    cases h
    rfl
  | .index n, .index n' =>
    have hrat := congrArg Number.toRat (Leaf.num.inj (Value.leaf.inj h))
    rw [Number.toRat_ofInt, Number.toRat_ofInt] at hrat
    have hn : n = n' := by exact_mod_cast hrat
    rw [hn]
  | .null, .null => rfl

theorem pathKey_injective {path path' : DcqlClaim} (h : pathKey path = pathKey path') :
    path = path' := by
  have hjson : ∀ path : DcqlClaim,
      Value.IsJson (.arr (path.map DcqlClaimsPathComponent.toValue)) := by
    intro path
    refine .arr fun x hx => ?_
    obtain ⟨component, -, rfl⟩ := List.mem_map.mp hx
    cases component <;> exact .leaf rfl
  have hread : ∀ path : DcqlClaim, (pathKey path).bind Json.parse =
      some (.arr (path.map DcqlClaimsPathComponent.toValue)) :=
        fun path => Json.parse_stringify (hjson path)
  have hsame := hread path
  rw [h, hread path'] at hsame
  exact (List.map_injective_iff.mpr toValue_injective (Value.arr.inj (Option.some.inj hsame))).symm

/-- Each claim is kept, once. -/
theorem dedupeClaims_spec (claims : List DcqlClaim) :
    (dedupeClaims claims).Nodup ∧ ∀ q, q ∈ dedupeClaims claims ↔ q ∈ claims := by
  have hfold : ∀ (claims : List DcqlClaim) (deduped : List (Option (List Char) × DcqlClaim)),
      (∀ entry ∈ deduped, entry.1 = pathKey entry.2) → (deduped.map Prod.snd).Nodup →
      let result := (claims.foldl (fun (deduped : List (Option (List Char) × DcqlClaim)) claim =>
        if pathKey claim ∈ deduped.map Prod.fst then deduped
        else deduped ++ [(pathKey claim, claim)]) deduped)
      (result.map Prod.snd).Nodup ∧ ∀ q, q ∈ result.map Prod.snd ↔ q ∈ deduped.map Prod.snd ∨
      q ∈ claims := by
    intro claims
    induction claims with
    | nil => exact fun deduped _ hnodup => ⟨hnodup, fun q => by simp⟩
    | cons claim claims ih =>
      intro deduped hkeys hnodup
      have hmem : pathKey claim ∈ deduped.map Prod.fst ↔ claim ∈ deduped.map Prod.snd := by
        constructor
        · intro h
          obtain ⟨entry, hentry, hkey⟩ := List.mem_map.mp h
          rw [hkeys entry hentry] at hkey
          exact List.mem_map.mpr ⟨entry, hentry, pathKey_injective hkey⟩
        · intro h
          obtain ⟨entry, hentry, rfl⟩ := List.mem_map.mp h
          exact List.mem_map.mpr ⟨entry, hentry, hkeys entry hentry⟩
      rw [List.foldl_cons]
      split_ifs with hthere
      · obtain ⟨hresult, hmems⟩ := ih deduped hkeys hnodup
        refine ⟨hresult, fun q => ?_⟩
        rw [hmems, List.mem_cons]
        constructor
        · exact fun h => h.imp_right .inr
        · rintro (h | rfl | h)
          · exact .inl h
          · exact .inl (hmem.mp hthere)
          · exact .inr h
      · obtain ⟨hresult, hmems⟩ := ih (deduped ++ [(pathKey claim, claim)])
          (by
            intro entry hentry
            rcases List.mem_append.mp hentry with h | h
            · exact hkeys entry h
            · rw [List.mem_singleton.mp h])
          (by
            rw [List.map_append]
            refine hnodup.append (List.nodup_singleton _) ?_
            intro q hq hq'
            rw [List.mem_singleton.mp hq'] at hq
            exact hthere (hmem.mpr hq))
        refine ⟨hresult, fun q => ?_⟩
        rw [hmems, List.map_append, List.mem_append, List.mem_cons, List.map_singleton,
          List.mem_singleton, or_assoc]
  have h := hfold claims [] (fun _ h => absurd h List.not_mem_nil) List.nodup_nil
  exact ⟨h.1, fun q => (h.2 q).trans (by simp)⟩

/-! ## Leaves -/

/-- What leads beyond a path leads through a schema at that path that declares further structure. -/
theorem exists_declares {root v : SchemaValue ι} {path p r : List DcqlClaimsPathComponent}
    {passed : Finset ι} {c : DcqlClaimsPathComponent} (h : Leads memory root path v passed)
    (hpath : path = p ++ c :: r) :
    ∃ w passed', Leads memory root p w passed' ∧ Declares memory w := by
  induction h generalizing r with
  | root => simp at hpath
  | @step path v u passed component met hleads hedge _ ih =>
    cases component with
    | none =>
      rw [Option.toList_none, List.append_nil] at hpath
      exact ih hpath
    | some c' =>
      rw [Option.toList_some] at hpath
      rcases List.eq_nil_or_concat r with rfl | ⟨r, d, rfl⟩
      · obtain ⟨rfl, -⟩ := List.append_inj' hpath rfl
        exact ⟨v, passed, hleads, c', met, u, hedge⟩
      · rw [List.concat_eq_append, ← List.cons_append, ← List.append_assoc] at hpath
        exact ih (List.append_inj' hpath rfl).1

theorem IsLeaf.eq_of_leads_on {root : SchemaValue ι} {path path' : List DcqlClaimsPathComponent}
    (h : IsLeaf memory root path) (h' : IsLeaf memory root path') (hon : path <+: path') :
    path = path' := by
  obtain ⟨rest, rfl⟩ := hon
  cases rest with
  | nil => rw [List.append_nil]
  | cons c r =>
    obtain ⟨v, passed, hleads⟩ := h'.2.1
    obtain ⟨w, passed', hw, hdeclares⟩ := exists_declares hleads rfl
    exact absurd hdeclares (h.2.2 w passed' hw)

/-! ## Branches -/

variable (memory) in
/-- A branch of the schema, with how each schema on it is met, the last one first. It passes no node
twice. -/
inductive Branch (root : SchemaValue ι) :
    List DcqlClaimsPathComponent → List (Met × SchemaValue ι) → Prop
  | root : Branch root [] [(.schema, root)]
  | step {path : List DcqlClaimsPathComponent} {s : Met × SchemaValue ι}
    {rest : List (Met × SchemaValue ι)}
    {component : Option DcqlClaimsPathComponent} {met : Met} {u : SchemaValue ι} :
    Branch root path (s :: rest) → Edge memory s.2 component met u →
      (∀ t ∈ s :: rest, Disjoint (nodeOf memory t.2) (nodeOf memory u)) →
      Branch root (path ++ component.toList) ((met, u) :: s :: rest)

variable (memory) in
/-- Every schema is met where its edges are followed, and where a branch comes back to a node that
it has passed, the ancestors are looked at, and the node is one of them. -/
structure Followed (root : SchemaValue ι) : Prop where
  followed : ∀ path s rest component met u, Branch memory root path (s :: rest) →
    Edge memory s.2 component met u →
    ¬ Skips memory s.1 s.2 u component
  returns : ∀ path s rest component met u, Branch memory root path (s :: rest) →
    Edge memory s.2 component met u →
    ∀ t ∈ s :: rest, ¬ Disjoint (nodeOf memory t.2) (nodeOf memory u) →
      ¬ ByArray memory met u ∧ ¬ Unstructured memory met u ∧ ¬ ByArray memory t.1 t.2

variable (memory) in
/-- An object schema without any property, which is not addressed. -/
def Unaddressed (met : Met) (node : SchemaValue ι) : Prop :=
  ¬ ByArray memory met node ∧ properties memory node = some []

variable (memory) in
/-- At each position all schemas that apply declare further structure, or none of them does. Those
that are not addressed do not count, and where no further structure is declared there is another
one. -/
structure Uniform (root : SchemaValue ι) : Prop where
  alike : ∀ path s rest w passed, path ≠ [] → Branch memory root path (s :: rest) →
    Leads memory root path w passed →
    Declares memory w → Declares memory s.2 ∨ Unaddressed memory s.1 s.2
  addressed : ∀ path, IsLeaf memory root path →
    ∃ s rest, Branch memory root path (s :: rest) ∧ ¬ Unaddressed memory s.1 s.2

section

variable {root : SchemaValue ι} {path : List DcqlClaimsPathComponent}

/-- A schema applies where a branch leads to it. -/
theorem Branch.leads {s : Met × SchemaValue ι} {rest : List (Met × SchemaValue ι)}
    (h : Branch memory root path (s :: rest)) :
    ∃ passed, Leads memory root path s.2 passed ∧ ∀ i, i ∈ passed ↔
      ∃ t ∈ s :: rest, i ∈ nodeOf memory t.2 := by
  generalize hb : s :: rest = b at h
  induction h generalizing s rest with
  | root =>
    obtain ⟨rfl, rfl⟩ := List.cons.inj hb
    exact ⟨_, .root, fun i => by simp⟩
  | @step path s' rest' component met u _ hedge hfresh ih =>
    obtain ⟨rfl, rfl⟩ := List.cons.inj hb
    obtain ⟨passed, hleads, hpassed⟩ := ih rfl
    have hdisjoint : Disjoint (nodeOf memory u) passed := by
      rw [Finset.disjoint_left]
      intro i hu hi
      obtain ⟨t, ht, hit⟩ := (hpassed i).mp hi
      exact Finset.disjoint_left.mp (hfresh t ht) hit hu
    refine ⟨_, .step hleads hedge hdisjoint, fun i => ?_⟩
    rw [Finset.mem_union, hpassed, List.exists_mem_cons_iff _ (met, u)]

theorem Leads.branch {v : SchemaValue ι} {passed : Finset ι} (h : Leads memory root path v passed) :
    ∃ met rest, Branch memory root path ((met, v) :: rest) ∧
      ∀ i, i ∈ passed ↔ ∃ t ∈ (met, v) :: rest, i ∈ nodeOf memory t.2 := by
  induction h with
  | root => exact ⟨.schema, [], .root, fun i => by simp⟩
  | @step path v u passed component met' _ hedge hfresh ih =>
    obtain ⟨met, rest, hbranch, hpassed⟩ := ih
    refine ⟨met', _, .step hbranch hedge fun t ht => ?_, fun i => ?_⟩
    · rw [Finset.disjoint_left]
      intro i hi hu
      exact Finset.disjoint_left.mp hfresh hu ((hpassed i).mpr ⟨t, ht, hi⟩)
    · rw [Finset.mem_union, hpassed, List.exists_mem_cons_iff (a := (met', u))]

variable (memory) in
/-- The ancestors are the nodes that were met where they are remembered. -/
def Remembers (ancestors : Finset ι) (rest : List (Met × SchemaValue ι)) : Prop :=
  ∀ i, i ∈ ancestors ↔ ∃ t ∈ rest, ¬ ByArray memory t.1 t.2 ∧ i ∈ nodeOf memory t.2

theorem Remembers.remember {ancestors : Finset ι} {rest : List (Met × SchemaValue ι)}
    (h : Remembers memory ancestors rest) (s : Met × SchemaValue ι) :
    Remembers memory (remember memory s.1 s.2 ancestors) (s :: rest) := by
  intro i
  rw [List.exists_mem_cons_iff, ← h i]
  unfold EudiAttestationSchema.remember
  split_ifs with harray
  · simp [harray]
  · simp [harray]

/-- The ancestors are not among the nodes of a schema that is met for the first time. -/
theorem Branch.not_blocked {s : Met × SchemaValue ι} {rest : List (Met × SchemaValue ι)}
    {ancestors : Finset ι} (h : Branch memory root path (s :: rest))
    (ha : Remembers memory ancestors rest) :
    ¬ Blocked memory s.1 s.2 ancestors := by
  have hfresh : ∀ t ∈ rest, Disjoint (nodeOf memory t.2) (nodeOf memory s.2) := by
    cases h with
    | root => exact fun t ht => absurd ht List.not_mem_nil
    | step _ _ hfresh => exact hfresh
  intro hblocked
  refine hblocked.2.2 (Finset.disjoint_left.mpr fun i hi hmem => ?_)
  obtain ⟨t, ht, -, hit⟩ := (ha i).mp hmem
  exact Finset.disjoint_left.mp (hfresh t ht) hit hi

/-- The collection gets to the end of each branch. -/
theorem Followed.walks (hf : Followed memory root) {s : Met × SchemaValue ι}
    {rest : List (Met × SchemaValue ι)} (h : Branch memory root path (s :: rest)) :
    ∃ ancestors, Walks memory root path s.1 s.2 ancestors ∧ Remembers memory ancestors rest := by
  generalize hb : s :: rest = b at h
  induction h generalizing s rest with
  | root =>
    obtain ⟨rfl, rfl⟩ := List.cons.inj hb
    exact ⟨∅, .root, fun i => by simp⟩
  | step hbranch hedge _ ih =>
    obtain ⟨rfl, rfl⟩ := List.cons.inj hb
    obtain ⟨ancestors, hwalks, ha⟩ := ih rfl
    exact ⟨_, .step hwalks (hbranch.not_blocked ha) hedge (hf.followed _ _ _ _ _ _ hbranch hedge),
      ha.remember _⟩

/-- Where the collection gets is the end of a branch, or a node that is among the ancestors. -/
theorem Followed.branch (hf : Followed memory root) {met : Met} {v : SchemaValue ι}
    {ancestors : Finset ι} (h : Walks memory root path met v ancestors) :
    (∃ rest, Branch memory root path ((met, v) :: rest) ∧ Remembers memory ancestors rest) ∨
      Blocked memory met v ancestors := by
  induction h with
  | root => exact .inl ⟨[], .root, fun i => by simp⟩
  | @step path met met' v u ancestors component _ hblocked hedge _ ih =>
    obtain ⟨rest, hbranch, ha⟩ := ih.resolve_right hblocked
    have ha' := ha.remember (met, v)
    by_cases hfresh : ∀ t ∈ (met, v) :: rest, Disjoint (nodeOf memory t.2) (nodeOf memory u)
    · exact .inl ⟨_, .step hbranch hedge hfresh, ha'⟩
    · right
      obtain ⟨t, hnot⟩ := not_forall.mp hfresh
      obtain ⟨ht, hshared⟩ := Classical.not_imp.mp hnot
      obtain ⟨harray, hstructured, hremembered⟩ := hf.returns _ _ _ _ _ _ hbranch hedge t ht hshared
      obtain ⟨i, hit, hiu⟩ := Finset.not_disjoint_iff.mp hshared
      exact ⟨harray, hstructured,
        Finset.not_disjoint_iff.mpr ⟨i, hiu, (ha' i).mpr ⟨t, ht, hremembered, hit⟩⟩⟩

/-- Where every edge is followed, a path is collected where a branch ends at a schema that declares
no further structure and is addressed. -/
theorem Followed.mem_iff [Fintype ι] (hf : Followed memory root) {q : DcqlClaim} :
    q ∈ getClaimsFromSchema memory (some ⟨none, some root⟩) ↔
      q ≠ [] ∧ ∃ s rest, Branch memory root q (s :: rest) ∧ ¬ Declares memory s.2 ∧
      ¬ Unaddressed memory s.1 s.2 := by
  have hclaims : getClaimsFromSchema memory (some ⟨none, some root⟩) =
      dedupeClaims (collectClaimsFromSchema memory root [] ∅) := rfl
  rw [hclaims, (dedupeClaims_spec _).2, mem_collectClaimsFromSchema_iff]
  refine and_congr_right fun _ => ⟨?_, ?_⟩
  · rintro ⟨met, v, ancestors, hwalks, hblocked, hend, haddressed⟩
    obtain ⟨rest, hbranch, -⟩ := (hf.branch hwalks).resolve_right hblocked
    refine ⟨(met, v), rest, hbranch, ?_, fun hun => haddressed.elim hun.1 fun hne => hne hun.2⟩
    rintro ⟨component, met', child, hedge⟩
    exact hf.followed _ _ _ _ _ _ hbranch hedge (hend component met' child hedge)
  · rintro ⟨s, rest, hbranch, hdeclares, haddressed⟩
    obtain ⟨ancestors, hwalks, ha⟩ := hf.walks hbranch
    refine ⟨s.1, s.2, ancestors, hwalks, hbranch.not_blocked ha,
      fun component met' child hedge => ?_, ?_⟩
    · exact absurd ⟨component, met', child, hedge⟩ hdeclares
    · by_contra hneither
      rw [not_or, not_not] at hneither
      exact haddressed hneither

/-- Where every edge is followed, the claims are the leaves of the schema exactly if the schemas
that apply at a position are alike. -/
theorem claimsAreLeaves_iff [Fintype ι] (hf : Followed memory root) :
    ClaimsAreLeaves memory root (getClaimsFromSchema memory (some ⟨none, some root⟩)) ↔
      Uniform memory root := by
  constructor
  · intro h
    refine ⟨fun path s rest w passed hne hbranch hleads hdeclares => ?_, fun path hleaf => ?_⟩
    · -- otherwise the position is collected, though another schema there declares more
      by_contra hneither
      obtain ⟨hnot, haddressed⟩ := not_or.mp hneither
      exact ((h.leaves path).mp (hf.mem_iff.mpr ⟨hne, s, rest, hbranch, hnot, haddressed⟩)).2.2 w
        passed hleads hdeclares
    · obtain ⟨-, s, rest, hbranch, -, haddressed⟩ := hf.mem_iff.mp ((h.leaves path).mpr hleaf)
      exact ⟨s, rest, hbranch, haddressed⟩
  · intro h
    have hleaves : ∀ path, path ∈ getClaimsFromSchema memory (some ⟨none, some root⟩) ↔
        IsLeaf memory root path := by
      intro path
      rw [hf.mem_iff]
      constructor
      · rintro ⟨hne, s, rest, hbranch, hnot, haddressed⟩
        obtain ⟨passed, hleads, -⟩ := hbranch.leads
        exact ⟨hne, ⟨_, passed, hleads⟩, fun w passed' hw hdeclares =>
          (h.alike path s rest w passed' hne hbranch hw hdeclares).elim hnot haddressed⟩
      · intro hleaf
        obtain ⟨s, rest, hbranch, haddressed⟩ := h.addressed path hleaf
        obtain ⟨passed, hleads, -⟩ := hbranch.leads
        exact ⟨hleaf.1, s, rest, hbranch, hleaf.2.2 _ passed hleads, haddressed⟩
    refine ⟨(dedupeClaims_spec _).1, fun hnil => ((hleaves []).mp hnil).1 rfl, hleaves, ?_⟩
    intro path hpath path' hpath' hon
    exact ((hleaves path).mp hpath).eq_of_leads_on ((hleaves path').mp hpath') hon

/-! ## Checking a schema -/

variable (memory) in
/-- What leads from a schema, also where items are objects or arrays only by their branches. -/
def candidates (node : SchemaValue ι) :
    List (Option DcqlClaimsPathComponent × Met × SchemaValue ι) :=
  (variants memory node).map (fun u => (none, .schema, u)) ++
    ((properties memory node).getD []).map (fun m => (some (.name m.1), .property, m.2)) ++
    (getTupleItemSchemas memory node).elim
        (((member memory node "items").toList.filter fun u =>
          isObjectSchema memory u || isArraySchema memory u ||
            !(variants memory u).isEmpty).map fun u =>
            (some .null, .schema, u))
        (fun items => items.zipIdx.map fun entry => (some (.index entry.2), .entry, entry.1))

theorem mem_candidates {v u : SchemaValue ι}
    {component : Option DcqlClaimsPathComponent} {met : Met} (h : Edge memory v component met u) :
    (component, met, u) ∈ candidates memory v := by
  unfold candidates
  cases h with
  | variant hu => exact List.mem_append_left _ (List.mem_append_left _ (List.mem_map_of_mem hu))
  | @property _ members name hmembers hu =>
    refine List.mem_append_left _ (List.mem_append_right _ (List.mem_map.mpr ⟨(name, u), ?_, rfl⟩))
    rw [hmembers]
    exact hu
  | @entry _ items k hitems hu =>
    refine List.mem_append_right _ ?_
    rw [hitems]
    exact List.mem_map.mpr ⟨(u, k), List.mem_zipIdx_iff_getElem?.mpr hu, rfl⟩
  | items htuple hu hstructured =>
    refine List.mem_append_right _ ?_
    rw [htuple, hu]
    refine List.mem_map.mpr ⟨u, List.mem_filter.mpr ⟨List.mem_singleton_self u, ?_⟩, rfl⟩
    obtain ⟨branch, hreach, hbranch⟩ := hstructured
    rcases hreach.cases_head with rfl | ⟨next, hnext, -⟩
    · rcases hbranch with hobject | harray
      · simp [hobject]
      · simp [harray]
    · simp [List.ne_nil_of_mem hnext]

theorem edge_of_candidate {v u : SchemaValue ι} {component : Option DcqlClaimsPathComponent}
    {met met' : Met} (h : (component, met', u) ∈ candidates memory v)
    (hskip : ¬ Skips memory met v u component) :
    Edge memory v component met' u := by
  unfold candidates at h
  rcases List.mem_append.mp h with h | h
  · rcases List.mem_append.mp h with h | h
    · obtain ⟨u', hu, heq⟩ := List.mem_map.mp h
      cases heq
      exact .variant hu
    · obtain ⟨m, hm, heq⟩ := List.mem_map.mp h
      cases heq
      cases hmembers : properties memory v with
      | none =>
        rw [hmembers] at hm
        cases hm
      | some members =>
        rw [hmembers] at hm
        exact .property hmembers hm
  · cases htuple : getTupleItemSchemas memory v with
    | some items =>
      rw [htuple] at h
      obtain ⟨entry, hentry, heq⟩ := List.mem_map.mp h
      cases heq
      exact .entry htuple (List.mem_zipIdx_iff_getElem?.mp hentry)
    | none =>
      rw [htuple] at h
      obtain ⟨u', hu, heq⟩ := List.mem_map.mp h
      cases heq
      have hitems := Option.mem_toList.mp (List.mem_filter.mp hu).1
      exact .items htuple hitems (structured_of_direct (or_iff_not_and_not.mpr (not_or.mp hskip).2))

instance (met : Met) (node : SchemaValue ι) : Decidable (Unstructured memory met node) :=
  inferInstanceAs (Decidable (_ ∧ _))

instance (met : Met) (node child : SchemaValue ι) :
    ∀ component, Decidable (Skips memory met node child component)
  | none => inferInstanceAs (Decidable (_ ∨ _))
  | some (.name _) => inferInstanceAs (Decidable (ByArray memory met node))
  | some (.index _) => inferInstanceAs (Decidable (_ ∧ _))
  | some .null => inferInstanceAs (Decidable (_ ∨ _))

variable (memory) in
/-- What leads on from `s` to the node of `t`, if `t` has been passed, is looked up among the
ancestors, and `t` is one of them. Only the root is on a branch that ends at the root. -/
def Noticed (root : SchemaValue ι) (s child t : Met × SchemaValue ι) : Prop :=
  ¬ Disjoint (nodeOf memory t.2) (nodeOf memory child.2) → candidates memory t.2 ≠ [] →
    (nodeOf memory s.2 = nodeOf memory root → t = (.schema, root)) →
    ¬ ByArray memory child.1 child.2 ∧ ¬ Unstructured memory child.1 child.2 ∧
    ¬ ByArray memory t.1 t.2

instance (root : SchemaValue ι) (s child t : Met × SchemaValue ι) :
    Decidable (Noticed memory root s child t) :=
  inferInstanceAs (Decidable (_ → _))

variable (memory) in
/-- Schemas that are met, with all that they lead to: nothing is left out, a node that has been
passed is noticed, and each schema is addressed. -/
structure Covers (root : SchemaValue ι) (states : List (Met × SchemaValue ι)) : Prop where
  root_mem : (.schema, root) ∈ states
  closed : ∀ s ∈ states, ∀ e ∈ candidates memory s.2, e.2 ∈ states ∧
    ¬ Skips memory s.1 s.2 e.2.2 e.1
  returns : ∀ s ∈ states, ∀ e ∈ candidates memory s.2, ∀ t ∈ states, Noticed memory root s e.2 t
  addressed : ∀ s ∈ states, properties memory s.2 ≠ some []

variable (memory) in
/-- Classes of schemas: of the schemas that apply together. -/
structure Classes (states : List (Met × SchemaValue ι)) (classOf : SchemaValue ι → ℕ) : Prop where
  variant : ∀ s ∈ states, ∀ u ∈ variants memory s.2, classOf u = classOf s.2
  step : ∀ s ∈ states, ∀ t ∈ states, classOf s.2 = classOf t.2 → ∀ e ∈ candidates memory s.2,
    ∀ e' ∈ candidates memory t.2, e.1 ≠ none → e.1 = e'.1 → classOf e.2.2 = classOf e'.2.2
  alike : ∀ s ∈ states, ∀ t ∈ states, classOf s.2 = classOf t.2 →
    (∃ e ∈ candidates memory s.2, e.1 ≠ none) →
    ∃ e ∈ candidates memory t.2, e.1 ≠ none

section

variable {root : SchemaValue ι} {path : List DcqlClaimsPathComponent}
    {states : List (Met × SchemaValue ι)}

theorem Branch.root_mem {b : List (Met × SchemaValue ι)} (h : Branch memory root path b) :
    (.schema, root) ∈ b := by
  induction h with
  | root => exact List.mem_singleton_self _
  | step _ _ _ ih => exact List.mem_cons_of_mem _ ih

theorem Covers.mem (hc : Covers memory root states) {b : List (Met × SchemaValue ι)}
    (h : Branch memory root path b) :
    ∀ t ∈ b, t ∈ states := by
  induction h with
  | root => exact List.forall_mem_singleton.mpr hc.root_mem
  | step _ hedge _ ih =>
    exact List.forall_mem_cons.mpr
      ⟨(hc.closed _ (ih _ List.mem_cons_self) _ (mem_candidates hedge)).1, ih⟩

/-- What is behind the end of a branch leads on. -/
theorem Branch.candidates_ne_nil {s : Met × SchemaValue ι} {rest : List (Met × SchemaValue ι)}
    (h : Branch memory root path (s :: rest)) : ∀ t ∈ rest, candidates memory t.2 ≠ [] := by
  generalize hb : s :: rest = b at h
  induction h generalizing s rest with
  | root =>
    obtain ⟨rfl, rfl⟩ := List.cons.inj hb
    exact fun t ht => absurd ht List.not_mem_nil
  | step _ hedge _ ih =>
    obtain ⟨rfl, rfl⟩ := List.cons.inj hb
    exact List.forall_mem_cons.mpr ⟨List.ne_nil_of_mem (mem_candidates hedge), ih rfl⟩

/-- A branch that ends at the node of the root is the root. -/
theorem Branch.eq_root {s : Met × SchemaValue ι} {rest : List (Met × SchemaValue ι)}
    (h : Branch memory root path (s :: rest)) (hnode : nodeOf memory s.2 = nodeOf memory root)
    (hne : (nodeOf memory root).Nonempty) : s :: rest = [(.schema, root)] := by
  cases h with
  | root => rfl
  | step hbranch _ hfresh =>
    obtain ⟨i, hi⟩ := hne
    exact absurd (hnode ▸ hi) (Finset.disjoint_left.mp (hfresh _ hbranch.root_mem) hi)

/-- Schemas that are covered are followed. -/
theorem Covers.followed (hc : Covers memory root states) : Followed memory root := by
  constructor
  · intro path s rest component met u hbranch hedge
    exact (hc.closed s (hc.mem hbranch s List.mem_cons_self) _ (mem_candidates hedge)).2
  · intro path s rest component met u hbranch hedge t ht hshared
    have hcandidate := mem_candidates hedge
    have hleads : candidates memory t.2 ≠ [] := by
      rcases List.mem_cons.mp ht with rfl | ht
      · exact List.ne_nil_of_mem hcandidate
      · exact hbranch.candidates_ne_nil t ht
    refine hc.returns s (hc.mem hbranch s List.mem_cons_self) _ hcandidate t
      (hc.mem hbranch t ht) hshared hleads
      fun hnode => ?_
    have hplain : (nodeOf memory root).Nonempty := by
      rw [← hnode, Finset.nonempty_iff_ne_empty]
      intro hempty
      cases hplain : plainObject memory s.2 with
      | none => exact not_edge hplain hedge
      | some object => simp [nodeOf, hplain] at hempty
    rw [hbranch.eq_root hnode hplain] at ht
    exact List.mem_singleton.mp ht

/-- A schema that applies is covered. -/
theorem Covers.exists_mem (hc : Covers memory root states) {v : SchemaValue ι} {passed : Finset ι}
    (h : Leads memory root path v passed) : ∃ met, (met, v) ∈ states := by
  obtain ⟨met, rest, hbranch, -⟩ := h.branch
  exact ⟨met, hc.mem hbranch _ List.mem_cons_self⟩

variable {classOf : SchemaValue ι → ℕ}

/-- What leads to a path that a component ends leads over a schema before it. -/
theorem Classes.exists_before (hc : Covers memory root states) (hk : Classes memory states classOf)
    {p : List DcqlClaimsPathComponent} {c : DcqlClaimsPathComponent} {w : SchemaValue ι}
    {passed : Finset ι} (h : Leads memory root path w passed) (hpath : path = p ++ [c]) :
    ∃ v passed' met u, Leads memory root p v passed' ∧ Edge memory v (some c) met u ∧
    classOf u = classOf w := by
  induction h with
  | root => simp at hpath
  | @step path v u passed component met hleads hedge _ ih =>
    cases component with
    | none =>
      rw [Option.toList_none, List.append_nil] at hpath
      obtain ⟨v', passed', met', u', hv', hedge', hclass⟩ := ih hpath
      obtain ⟨met'', hmem⟩ := hc.exists_mem hleads
      cases hedge with
      | variant hu => exact ⟨v', passed', met', u', hv', hedge',
          hclass.trans (hk.variant _ hmem u hu).symm⟩
    | some c' =>
      rw [Option.toList_some] at hpath
      obtain ⟨rfl, hc'⟩ := List.append_inj' hpath rfl
      cases hc'
      exact ⟨v, passed, met, u, hleads, hedge, rfl⟩

/-- The schemas that apply at a path are in one class. -/
theorem Classes.classOf_eq (hc : Covers memory root states) (hk : Classes memory states classOf)
    {v w : SchemaValue ι} {passed passed' : Finset ι} (hv : Leads memory root path v passed)
    (hw : Leads memory root path w passed') :
    classOf v = classOf w := by
  induction hv generalizing w passed' with
  | root =>
    generalize hpath : ([] : List DcqlClaimsPathComponent) = path at hw
    induction hw with
    | root => rfl
    | step hleads hedge _ ih =>
      cases hedge with
      | variant hu =>
        rw [Option.toList_none, List.append_nil] at hpath
        obtain ⟨met, hmem⟩ := hc.exists_mem hleads
        exact (ih hpath).trans (hk.variant _ hmem _ hu).symm
      | property => simp at hpath
      | entry => simp at hpath
      | items => simp at hpath
  | @step path v u passed component met hleads hedge _ ih =>
    obtain ⟨metV, hmem⟩ := hc.exists_mem hleads
    cases component with
    | none =>
      rw [Option.toList_none, List.append_nil] at hw
      cases hedge with
      | variant hu => exact (hk.variant _ hmem u hu).trans (ih hw)
    | some c =>
      -- both walks take the last component from schemas at one position
      obtain ⟨v', passed'', met', u', hv', hedge', hclass⟩ := hk.exists_before hc hw rfl
      obtain ⟨metV', hmem'⟩ := hc.exists_mem hv'
      exact (hk.step _ hmem _ hmem' (ih hv') _ (mem_candidates hedge) _ (mem_candidates hedge')
        (Option.some_ne_none c) rfl).trans hclass

/-- Schemas that are covered by classes are uniform. -/
theorem Classes.uniform (hc : Covers memory root states) (hk : Classes memory states classOf) :
    Uniform memory root := by
  constructor
  · intro path s rest w passed _ hbranch hw hdeclares
    left
    obtain ⟨passed', hs, -⟩ := hbranch.leads
    have hmem := hc.mem hbranch s List.mem_cons_self
    obtain ⟨metW, hmemW⟩ := hc.exists_mem hw
    obtain ⟨c, met, u, hedge⟩ := hdeclares
    obtain ⟨⟨component, met', u'⟩, he, hne⟩ := hk.alike _ hmemW _ hmem (hk.classOf_eq hc hw hs)
      ⟨_, mem_candidates hedge, Option.some_ne_none c⟩
    obtain ⟨c', rfl⟩ := Option.ne_none_iff_exists'.mp hne
    exact ⟨c', met', u', edge_of_candidate he (hc.closed s hmem _ he).2⟩
  · rintro path ⟨-, ⟨v, passed, hv⟩, -⟩
    obtain ⟨met, rest, hbranch, -⟩ := hv.branch
    exact ⟨_, rest, hbranch, fun hun => hc.addressed _ (hc.mem hbranch _ List.mem_cons_self) hun.2⟩

end

end

end

/-- A person with an address in two parts, nationalities, a place with an address, and children who
are persons. -/
def personSchema : Memory (Fin 12)
  | 0 => .object [("type", .text "object"), ("properties", .ref 1)]
  | 1 => .object [("name", .ref 2), ("address", .ref 3), ("nationalities", .ref 8),
      ("place", .ref 9), ("children", .ref 11)]
  | 2 => .object [("type", .text "string")]
  | 3 => .object [("type", .text "object"), ("properties", .ref 4), ("allOf", .ref 5)]
  | 4 => .object [("street", .ref 2)]
  | 5 => .array [.ref 6]
  | 6 => .object [("properties", .ref 7)]
  | 7 => .object [("city", .ref 2)]
  | 8 => .object [("type", .text "array"), ("items", .ref 2)]
  | 9 => .object [("prefixItems", .ref 10)]
  | 10 => .array [.ref 2, .ref 3]
  | 11 => .object [("type", .text "array"), ("items", .ref 0)]

def personStates : List (Met × SchemaValue (Fin 12)) :=
  [(.schema, .ref 0), (.property, .ref 2), (.property, .ref 3), (.schema, .ref 6),
    (.property, .ref 8), (.property, .ref 9), (.property, .ref 11), (.entry, .ref 2),
    (.entry, .ref 3)]

theorem covers_person : Covers personSchema (.ref 0) personStates :=
  ⟨by decide, by decide +kernel, by decide +kernel, by decide +kernel⟩

/-- The two parts of an address apply together. -/
def personClass : SchemaValue (Fin 12) → ℕ
  | .ref 6 => 3
  | .ref i => i
  | _ => 12

theorem classes_person : Classes personSchema personStates personClass :=
  ⟨by decide +kernel, by decide +kernel, by decide +kernel⟩

theorem claimsAreLeaves_person :
    ClaimsAreLeaves personSchema (.ref 0)
      (getClaimsFromSchema personSchema (some ⟨none, some (.ref 0)⟩)) :=
  (claimsAreLeaves_iff covers_person.followed).mpr (classes_person.uniform covers_person)

/-- A schema of which the property `address` is an object by its `allOf`. -/
def addressSchema : Memory (Fin 7)
  | 0 => .object [("type", .text "object"), ("properties", .ref 1)]
  | 1 => .object [("address", .ref 2)]
  | 2 => .object [("allOf", .ref 3)]
  | 3 => .array [.ref 4]
  | 4 => .object [("type", .text "object"), ("properties", .ref 5)]
  | 5 => .object [("city", .ref 6)]
  | 6 => .object [("type", .text "string")]

theorem getClaimsFromSchema_address :
    getClaimsFromSchema addressSchema (some ⟨none, some (.ref 0)⟩) = [[.name "address"]] := by
      decide +kernel

/-- The whole address is asked for, and not its member. -/
theorem address_not_leaf :
    ¬ ClaimsAreLeaves addressSchema (.ref 0)
      (getClaimsFromSchema addressSchema (some ⟨none, some (.ref 0)⟩)) := by
  intro h
  have hleaf := (h.leaves [.name "address"]).mp
    (by rw [getClaimsFromSchema_address]; exact List.mem_singleton_self _)
  have hroot : properties addressSchema (.ref 0) = some [("address", .ref 2)] := rfl
  have hobject : properties addressSchema (.ref 4) = some [("city", .ref 6)] := rfl
  have haddress : Leads addressSchema (.ref 0) [.name "address"] (.ref 2) {2, 0} :=
    .step .root (.property hroot List.mem_cons_self) (by decide)
  have hbranch : Leads addressSchema (.ref 0) [.name "address"] (.ref 4) {4, 2, 0} :=
    .step haddress (.variant (by decide)) (by decide)
  exact hleaf.2.2 _ _ hbranch ⟨.name "city", .property, .ref 6,
    .property hobject List.mem_cons_self⟩

end IdentityCommon.EudiAttestationSchema
