import IdentityCommon.Ecma.Number
import IdentityCommon.Lib.AssocList

/-!
# Values of the language

JSON values, together with the other values that reading them can lead to: `undefined`, the
members that every object inherits, and the symbol that stands for an array slot that is not
disclosed. An object is a list of members in insertion order.

## Main definitions

- `Value`, `Value.IsJson` — values, and those that JSON text denotes
- `Value.get`, `Value.property` — reading a member, `value[key]`, own or inherited
- `Value.follow`, `Value.Same` — the own value at a position, and equality of values up to the
  order of members
- `Value.toText` — `String(value)`

## Design notes

Values that are not containers are one constructor, `leaf`, so that a proof about all values
has three cases.
-/

namespace IdentityCommon.Ecma

open AssocList

/-- A value that is neither an array nor a plain object. -/
inductive Leaf
  | undefined
  | null
  | bool (b : Bool)
  | num (n : Number)
  | str (s : String)
  /-- `Symbol.for('dcql.not_disclosed')`. -/
  | notDisclosed
  /-- The function that every object inherits under this name. -/
  | builtin (name : String)
  | objectPrototype
  /-- An object of another class, with its text. -/
  | host (text : String)
  deriving DecidableEq

/-- The leaves of JSON values. -/
def Leaf.isJson : Leaf → Bool
  | .null | .bool _ | .num _ | .str _ => true
  | _ => false

inductive Value
  | leaf (l : Leaf)
  | arr (items : List Value)
  | obj (members : List (String × Value))

/-- A step from a value to an own member or an array element. -/
inductive Key
  | name (s : String)
  | index (n : ℕ)
  deriving DecidableEq

namespace Value

@[match_pattern] abbrev undefined : Value := leaf .undefined

@[match_pattern] abbrev null : Value := leaf .null

@[match_pattern] abbrev bool (b : Bool) : Value := leaf (.bool b)

@[match_pattern] abbrev num (n : Number) : Value := leaf (.num n)

@[match_pattern] abbrev str (s : String) : Value := leaf (.str s)

@[match_pattern] abbrev notDisclosed : Value := leaf .notDisclosed

/-- Induction over a value, its elements and the values of its members. -/
@[induction_eliminator, elab_as_elim]
theorem induction {motive : Value → Prop} (leaf : ∀ l, motive (leaf l))
    (arr : ∀ items, (∀ x ∈ items, motive x) → motive (arr items))
    (obj : ∀ members, (∀ m ∈ members, motive m.2) → motive (obj members)) :
    ∀ v, motive v :=
  Value.rec (motive_1 := motive) (motive_2 := fun items => ∀ x ∈ items, motive x)
    (motive_3 := fun members => ∀ m ∈ members, motive m.2) (motive_4 := fun m => motive m.2)
    leaf arr obj (by simp) (fun _ _ h hs => List.forall_mem_cons.mpr ⟨h, hs⟩)
    (by simp) (fun _ _ h hs => List.forall_mem_cons.mpr ⟨h, hs⟩) (fun _ _ h => h)

/-! ## Reading -/

/-- The members of `Object.prototype` besides `__proto__`; all of them are functions. -/
def prototypeNames : List String :=
  ["constructor", "__defineGetter__", "__defineSetter__", "hasOwnProperty", "__lookupGetter__",
    "__lookupSetter__", "isPrototypeOf", "propertyIsEnumerable", "toString", "valueOf",
    "toLocaleString"]

/-- What a plain object without an own member `key` gives for it. -/
def inherited (key : String) : Value :=
  if key = "__proto__" then leaf .objectPrototype
  else if key ∈ prototypeNames then leaf (.builtin key)
  else undefined

/-- `value[key]`. -/
def get (key : String) : Value → Value
  | obj members => (members.lookup key).getD (inherited key)
  | leaf .objectPrototype => if key = "__proto__" then null else inherited key
  | leaf (.host _) => inherited key
  | _ => undefined

theorem get_obj_of_some {key : String} {members : List (String × Value)} {x : Value}
    (h : members.lookup key = some x) : (obj members).get key = x := by
  simp [get, h]

theorem get_obj_of_none {key : String} {members : List (String × Value)}
    (h : members.lookup key = none) : (obj members).get key = inherited key := by
  simp [get, h]

/-- The members of `Array.prototype` besides `length`; all of them are functions. -/
def arrayPrototypeNames : List String :=
  ["at", "concat", "constructor", "copyWithin", "entries", "every", "fill", "filter", "find",
    "findIndex", "findLast", "findLastIndex", "flat", "flatMap", "forEach", "includes", "indexOf",
    "join", "keys", "lastIndexOf", "map", "pop", "push", "reduce", "reduceRight", "reverse",
    "shift", "slice", "some", "sort", "splice", "toLocaleString", "toReversed", "toSorted",
    "toSpliced", "toString", "unshift", "values", "with"]

/-- The index that a property name is. -/
def arrayIndex (key : String) : Option ℕ := key.toNat?.filter fun n => n.repr = key

/-- `value[key]` of an array as well; `Array.prototype` is an object of another class. -/
def property (key : String) : Value → Value
  | arr items => match arrayIndex key with
    | some i => items[i]?.getD undefined
    | none =>
      if key = "length" then num (.ofDecimal items.length 0)
      else if key = "__proto__" then leaf (.host "")
      else if key ∈ arrayPrototypeNames then leaf (.builtin key)
      else inherited key
  | v => v.get key

/-- `typeof value === 'object' && value !== null && !Array.isArray(value)`. -/
def isObject : Value → Bool
  | obj _ => true
  | leaf .objectPrototype => true
  | leaf (.host _) => true
  | _ => false

/-- Whether a condition on the value holds, `if (value)`. -/
def truthy : Value → Bool
  | leaf .undefined | leaf .null => false
  | leaf (.bool b) => b
  | leaf (.num n) => n.mantissa ≠ 0
  | leaf (.str s) => s ≠ ""
  | _ => true

def isArray : Value → Bool
  | arr _ => true
  | _ => false

/-! ## Positions -/

def child : Key → Value → Option Value
  | .name k, obj members => members.lookup k
  | .index n, arr items => items[n]?
  | _, _ => none

/-- The own value at a position. -/
def follow : List Key → Value → Option Value
  | [], v => some v
  | k :: p, v => (child k v).bind (follow p)

/-- A value without its contents. -/
def head : Value → Value
  | leaf l => leaf l
  | arr _ => arr []
  | obj _ => obj []

/-- Equality up to the order of members: the same heads at the same positions. -/
def Same (v w : Value) : Prop := ∀ p, (v.follow p).map head = (w.follow p).map head

@[simp] theorem follow_nil (v : Value) : v.follow [] = some v := rfl

@[simp] theorem follow_cons (k : Key) (p : List Key) (v : Value) :
    v.follow (k :: p) = (v.child k).bind (follow p) := rfl

@[simp] theorem child_leaf (k : Key) (l : Leaf) : (leaf l).child k = none := by
  cases k <;> rfl

@[simp] theorem child_name_obj (k : String) (members : List (String × Value)) :
    (obj members).child (.name k) = members.lookup k := rfl

@[simp] theorem child_name_arr (k : String) (items : List Value) :
    (arr items).child (.name k) = none := rfl

@[simp] theorem child_index_arr (n : ℕ) (items : List Value) :
    (arr items).child (.index n) = items[n]? := rfl

@[simp] theorem child_index_obj (n : ℕ) (members : List (String × Value)) :
    (obj members).child (.index n) = none := rfl

/-- Induction over a value and its own members and elements. -/
theorem child_induction {motive : Value → Prop}
    (h : ∀ v, (∀ k x, v.child k = some x → motive x) → motive v) (v : Value) : motive v := by
  induction v with
  | leaf l => exact h _ fun k x hx => by simp at hx
  | arr items ih =>
    refine h _ fun k x hx => ?_
    cases k with
    | name k => cases hx
    | index n => exact ih x (List.mem_of_getElem? hx)
  | obj members ih =>
    refine h _ fun k x hx => ?_
    cases k with
    | name k => exact ih (k, x) (mem_of_lookup hx)
    | index n => cases hx

theorem head_eq_leaf {v : Value} {l : Leaf} (h : v.head = leaf l) : v = leaf l := by
  cases v with
  | leaf l' => exact h
  | arr items => cases h
  | obj members => cases h

theorem Same.refl (v : Value) : v.Same v := fun _ => rfl

theorem Same.symm {v w : Value} (h : v.Same w) : w.Same v := fun p => (h p).symm

theorem Same.trans {u v w : Value} (h : u.Same v) (h' : v.Same w) : u.Same w :=
  fun p => (h p).trans (h' p)

/-! ## JSON values -/

/-- The names of the members are distinct at every level. -/
inductive Distinct : Value → Prop
  | leaf (l : Leaf) : Distinct (leaf l)
  | arr {items : List Value} : (∀ x ∈ items, Distinct x) → Distinct (arr items)
  | obj {members : List (String × Value)} : (keys members).Nodup →
      (∀ m ∈ members, Distinct m.2) → Distinct (obj members)

theorem Distinct.child {v x : Value} {k : Key} (h : v.Distinct) (hx : v.child k = some x) :
    x.Distinct := by
  cases h with
  | leaf => simp at hx
  | arr ih =>
    cases k with
    | name k => cases hx
    | index n => exact ih x (List.mem_of_getElem? hx)
  | obj _ ih =>
    cases k with
    | name k => exact ih (k, x) (mem_of_lookup hx)
    | index n => cases hx

theorem obj_distinct_iff {members : List (String × Value)} :
    (obj members).Distinct ↔ (keys members).Nodup ∧ ∀ m ∈ members, m.2.Distinct := by
  constructor
  · intro h
    cases h with
    | obj hnodup hmembers => exact ⟨hnodup, hmembers⟩
  · exact fun h => .obj h.1 h.2

theorem distinct_insert {members : List (String × Value)} {key : String} {value : Value}
    (h : (obj members).Distinct) (hvalue : value.Distinct) :
    (obj (insert key value members)).Distinct := by
  rw [obj_distinct_iff] at h ⊢
  refine ⟨nodup_insert _ h.1, fun m hm => ?_⟩
  rcases mem_of_mem_insert hm with rfl | hm
  · exact hvalue
  · exact h.2 m hm

/-- The values that JSON text denotes. -/
inductive IsJson : Value → Prop
  | leaf {l : Leaf} : l.isJson → IsJson (leaf l)
  | arr {items : List Value} : (∀ x ∈ items, IsJson x) → IsJson (arr items)
  | obj {members : List (String × Value)} : (keys members).Nodup →
      (∀ m ∈ members, IsJson m.2) → IsJson (obj members)

theorem IsJson.child {v x : Value} {k : Key} (h : v.IsJson) (hx : v.child k = some x) :
    x.IsJson := by
  cases h with
  | leaf => simp at hx
  | arr ih =>
    cases k with
    | name k => cases hx
    | index n => exact ih x (List.mem_of_getElem? hx)
  | obj _ ih =>
    cases k with
    | name k => exact ih (k, x) (mem_of_lookup hx)
    | index n => cases hx

theorem IsJson.distinct {v : Value} (h : v.IsJson) : v.Distinct := by
  induction h with
  | leaf => exact .leaf _
  | arr _ ih => exact .arr ih
  | obj hn _ ih => exact .obj hn ih

mutual

/-- A test for JSON values. -/
def isJson : Value → Bool
  | leaf l => l.isJson
  | arr items => itemsAreJson items
  | obj members => decide (keys members).Nodup && membersAreJson members

def itemsAreJson : List Value → Bool
  | [] => true
  | x :: items => isJson x && itemsAreJson items

def membersAreJson : List (String × Value) → Bool
  | [] => true
  | (_, x) :: members => isJson x && membersAreJson members

end

theorem itemsAreJson_iff {items : List Value} : itemsAreJson items ↔ ∀ x ∈ items, isJson x := by
  induction items with
  | nil => simp [itemsAreJson]
  | cons x items ih => simp [itemsAreJson, ih]

theorem membersAreJson_iff {members : List (String × Value)} :
    membersAreJson members ↔ ∀ m ∈ members, isJson m.2 := by
  induction members with
  | nil => simp [membersAreJson]
  | cons m members ih =>
    rw [membersAreJson, Bool.and_eq_true, ih, List.forall_mem_cons]

theorem IsJson.of_isJson {v : Value} (h : isJson v) : v.IsJson := by
  induction v with
  | leaf l => exact .leaf h
  | arr items ih => exact .arr fun x hx => ih x hx (itemsAreJson_iff.mp h x hx)
  | obj members ih =>
    obtain ⟨hn, hm⟩ := Bool.and_eq_true_iff.mp h
    exact .obj (of_decide_eq_true hn) fun m hm' => ih m hm' (membersAreJson_iff.mp hm m hm')

/-! ## Text -/

mutual

/-- `String(value)`; `none` where the conversion throws. A plain object converts through
`Object.prototype.toString`, unless it has an own `toString`: the members of claims are JSON values,
so an own `toString` cannot be called, `valueOf` returns the object itself or cannot be called
either, and the conversion throws. -/
def toText : Value → Option String
  | leaf .undefined => some "undefined"
  | leaf .null => some "null"
  | leaf (.bool b) => some (if b then "true" else "false")
  | leaf (.num n) => some n.toString
  | leaf (.str s) => some s
  | leaf .notDisclosed => some "Symbol(dcql.not_disclosed)"
  | leaf (.builtin name) =>
    let name := if name = "constructor" then "Object" else name
    some ("function " ++ name ++ "() \x7b [native code] \x7d")
  | leaf .objectPrototype => some "[object Object]"
  | leaf (.host text) => some text
  | arr items => (itemTexts items).map (",".intercalate ·)
  | obj members => if (members.lookup "toString").isSome then none else some "[object Object]"

/-- The texts that the elements of an array are joined from. -/
def itemTexts : List Value → Option (List String)
  | [] => some []
  | leaf .undefined :: items | leaf .null :: items => (itemTexts items).map ("" :: ·)
  | leaf .notDisclosed :: _ => none
  | x :: items => (toText x).bind fun s => (itemTexts items).map (s :: ·)

end

end Value

end IdentityCommon.Ecma
