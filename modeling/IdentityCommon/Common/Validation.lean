import IdentityCommon.Common.Base64url
import IdentityCommon.Ecma.JsonNormal

/-!
# Schemas of values

The schemas that headers and keys are validated against, as functions to what they return for a
value that they accept, and that they accept what is read back of what they return.

## Main definitions

- `Schema`, `looseObject` — schemas; an object with members that have schemas and any others
- `Exact` — a schema that returns the JSON value that it accepts
- `Stable` — a schema that accepts what is read back of what it returns

## Main results

- `Exact.stable`, `Stable.optional`, `Stable.refine`, `Stable.looseObject` — schemas that are stable
-/

namespace IdentityCommon.Common

open Ecma AssocList Value Json

/-- What is returned for a value that is accepted. -/
abbrev Schema := Value → Option Value

def zNonEmptyString : Schema
  | str s => if s ≠ "" then some (str s) else none
  | _ => none

def zBoolean : Schema
  | .leaf (.bool b) => some (.leaf (.bool b))
  | _ => none

/-- The texts that are base64url without padding. -/
def isBase64Url (s : String) : Bool :=
  s.toList.all (Base64url.chars.contains ·) ∧ s.toList.length % 4 ≠ 1

/-- `zBase64Url.min(1)`. -/
def zNonEmptyBase64Url : Schema
  | str s => if isBase64Url s ∧ s ≠ "" then some (str s) else none
  | _ => none

/-- `z.array(schema).min(1)`. -/
def nonEmptyArray (schema : Schema) : Schema
  | arr items => if items ≠ [] then (items.mapM schema).map arr else none
  | _ => none

/-- `z.array(schema)`. -/
def array (schema : Schema) : Schema
  | arr items => (items.mapM schema).map arr
  | _ => none

def optional (schema : Schema) : Schema
  | undefined => some undefined
  | value => schema value

/-- `schema.superRefine(…)`, with what it does not report. -/
def refine (schema : Schema) (accepts : Value → Bool) : Schema :=
  fun value => (schema value).filter accepts

/-- The members with one more: a value that is `undefined` only counts where the input has the
member. -/
def putMember (present : Bool) (key : String) (value : Value) (known : List (String × Value)) :
    List (String × Value) :=
  match value with
  | undefined => if present then (key, undefined) :: known else known
  | value => (key, value) :: known

/-- The members that have a schema, in the order of the schemas. None of them has the name of an
inherited one. -/
def parseShape : List (String × Schema) → List (String × Value) → Option (List (String × Value))
  | [], _ => some []
  | (key, schema) :: shape, members => do
    let value ← schema ((members.lookup key).getD undefined)
    let known ← parseShape shape members
    some (putMember (key ∈ keys members) key value known)

/-- The other members. An own member `__proto__` is left out. -/
def isOther (shape : List (String × Schema)) (key : String) : Bool :=
  key ∉ keys shape ∧ key ≠ "__proto__"

/-- `z.object(shape).loose()`. -/
def looseObject (shape : List (String × Schema)) : Schema
  | obj members => do
    let known ← parseShape shape members
    some (obj (known ++ members.filter fun m => isOther shape m.1))
  | _ => none

/-! ## Schemas that return what they accept -/

/-- A schema that returns the JSON value that it accepts. -/
def Exact (schema : Schema) : Prop := ∀ v w, schema v = some w → w = v ∧ v.IsJson

theorem exact_zNonEmptyString : Exact zNonEmptyString := by
  intro v w h
  unfold zNonEmptyString at h
  split at h
  · split_ifs at h
    cases h
    exact ⟨rfl, .leaf rfl⟩
  · cases h

theorem exact_zBoolean : Exact zBoolean := by
  intro v w h
  unfold zBoolean at h
  split at h
  · cases h
    exact ⟨rfl, .leaf rfl⟩
  · cases h

theorem exact_zNonEmptyBase64Url : Exact zNonEmptyBase64Url := by
  intro v w h
  unfold zNonEmptyBase64Url at h
  split at h
  · split_ifs at h
    cases h
    exact ⟨rfl, .leaf rfl⟩
  · cases h

theorem mapM_eq_some_cons {α β : Type} {f : α → Option β} {item : α} {items : List α}
    {items' : List β} :
    (item :: items).mapM f = some items' ↔
      ∃ item' rest, f item = some item' ∧ items.mapM f = some rest ∧ items' = item' :: rest := by
  rw [List.mapM_cons]
  constructor
  · intro h
    obtain ⟨item', hitem, h⟩ := Option.bind_eq_some_iff.mp h
    obtain ⟨rest, hrest, h⟩ := Option.bind_eq_some_iff.mp h
    exact ⟨item', rest, hitem, hrest, (Option.some.inj h).symm⟩
  · rintro ⟨item', rest, hitem, hrest, rfl⟩
    exact Option.bind_eq_some_iff.mpr ⟨item', hitem, Option.bind_eq_some_iff.mpr ⟨rest, hrest, rfl⟩⟩

theorem Exact.mapM {schema : Schema} (hs : Exact schema) {items items' : List Value}
    (h : items.mapM schema = some items') :
    items' = items ∧ ∀ x ∈ items, x.IsJson := by
  induction items generalizing items' with
  | nil =>
    cases h
    exact ⟨rfl, nofun⟩
  | cons item items ih =>
    obtain ⟨item', rest, hitem, hrest, rfl⟩ := mapM_eq_some_cons.mp h
    obtain ⟨rfl, hjson⟩ := hs _ _ hitem
    obtain ⟨rfl, hall⟩ := ih hrest
    exact ⟨rfl, List.forall_mem_cons.mpr ⟨hjson, hall⟩⟩

theorem Exact.array {schema : Schema} (hs : Exact schema) : Exact (array schema) := by
  intro v w h
  unfold Common.array at h
  split at h
  · obtain ⟨items, hitems, rfl⟩ := Option.map_eq_some_iff.mp h
    obtain ⟨rfl, hjson⟩ := hs.mapM hitems
    exact ⟨rfl, .arr hjson⟩
  · cases h

theorem Exact.nonEmptyArray {schema : Schema} (hs : Exact schema) :
    Exact (nonEmptyArray schema) := by
  intro v w h
  unfold Common.nonEmptyArray at h
  split at h
  · split_ifs at h
    exact hs.array _ _ h
  · cases h

theorem Exact.refine {schema : Schema} (hs : Exact schema) (accepts : Value → Bool) :
    Exact (refine schema accepts) := by
  intro v w h
  obtain ⟨h, _⟩ := Option.filter_eq_some_iff.mp h
  exact hs v w h

/-! ## Schemas that accept what is read back -/

/-- What a schema returns has distinct names, and the schema accepts what is read back of it, also
where that is nothing. -/
structure Stable (schema : Schema) : Prop where
  distinct : ∀ v w, v.Distinct → schema v = some w → w.Distinct
  normal : ∀ v w j, v.Distinct → schema v = some w → normal w = some j → schema j = some j
  absent : ∀ v w, schema v = some w → Json.normal w = none → schema undefined = some undefined

theorem Exact.stable {schema : Schema} (hs : Exact schema) : Stable schema where
  distinct v w hv h := (hs v w h).1 ▸ hv
  normal v w j _ h hj := by
    obtain ⟨rfl, hjson⟩ := hs v w h
    rw [normal_of_isJson hjson] at hj
    cases hj
    exact h
  absent v w h hw := by
    obtain ⟨rfl, hjson⟩ := hs v w h
    rw [normal_of_isJson hjson] at hw
    cases hw

theorem optional_of_ne {schema : Schema} {v : Value} (h : v ≠ undefined) :
    optional schema v = schema v := by
  unfold optional
  split
  · exact absurd rfl h
  · rfl

theorem ne_undefined_of_normal {v j : Value} (h : Json.normal v = some j) : j ≠ undefined := by
  rintro rfl
  cases v with
  | leaf l => cases l <;> cases h
  | arr items => cases h
  | obj members => cases h

theorem Stable.optional {schema : Schema} (hs : Stable schema) : Stable (optional schema) where
  distinct v w hv h := by
    by_cases hu : v = undefined
    · subst hu
      cases h
      exact hv
    · rw [optional_of_ne hu] at h
      exact hs.distinct v w hv h
  normal v w j hv h hj := by
    by_cases hu : v = undefined
    · subst hu
      cases h
      cases hj
    · rw [optional_of_ne hu] at h
      rw [optional_of_ne (ne_undefined_of_normal hj)]
      exact hs.normal v w j hv h hj
  absent _ _ _ _ := rfl

theorem Stable.refine {schema : Schema} (hs : Stable schema) {accepts : Value → Bool}
    (hnormal : ∀ v w j, w.Distinct → schema v = some w → accepts w = true → Json.normal w = some j →
      accepts j = true)
    (habsent : ∀ v w, schema v = some w → Json.normal w ≠ none) :
    Stable (refine schema accepts) where
  distinct v w hv h := hs.distinct v w hv (Option.filter_eq_some_iff.mp h).1
  normal v w j hv h hj := by
    obtain ⟨h, haccepts⟩ := Option.filter_eq_some_iff.mp h
    exact Option.filter_eq_some_iff.mpr ⟨hs.normal v w j hv h hj,
      hnormal v w j (hs.distinct v w hv h) h haccepts hj⟩
  absent v w h hw := absurd hw (habsent v w (Option.filter_eq_some_iff.mp h).1)

/-- Elements that are all read back are read back one by one. -/
theorem mapM_normalItems {schema : Schema} (hs : Stable schema)
    (hread : ∀ v w, schema v = some w → Json.normal w ≠ none) {items items' : List Value}
    (hitems : ∀ x ∈ items, x.Distinct) (h : items.mapM schema = some items') :
    (∀ x ∈ items', x.Distinct) ∧ (normalItems items').mapM schema = some (normalItems items') := by
  induction items generalizing items' with
  | nil =>
    cases h
    exact ⟨nofun, rfl⟩
  | cons item items ih =>
    obtain ⟨item', rest, hitem, hrest, rfl⟩ := mapM_eq_some_cons.mp h
    obtain ⟨hdistinct, hitems⟩ := List.forall_mem_cons.mp hitems
    obtain ⟨hall, hmap⟩ := ih hitems hrest
    obtain ⟨j, hj⟩ := Option.ne_none_iff_exists'.mp (hread _ _ hitem)
    refine ⟨List.forall_mem_cons.mpr ⟨hs.distinct _ _ hdistinct hitem, hall⟩, ?_⟩
    rw [normalItems, hj, Option.getD_some]
    exact mapM_eq_some_cons.mpr ⟨j, _, hs.normal _ _ _ hdistinct hitem hj, hmap, rfl⟩

theorem Stable.array {schema : Schema} (hs : Stable schema)
    (hread : ∀ v w, schema v = some w → Json.normal w ≠ none) :
    Stable (array schema) where
  distinct v w hv h := by
    unfold Common.array at h
    split at h
    · obtain ⟨items', hitems, rfl⟩ := Option.map_eq_some_iff.mp h
      cases hv with
      | arr hdistinct => exact .arr (mapM_normalItems hs hread hdistinct hitems).1
    · cases h
  normal v w j hv h hj := by
    unfold Common.array at h
    split at h
    · obtain ⟨items', hitems, rfl⟩ := Option.map_eq_some_iff.mp h
      cases hj
      cases hv with
      | arr hdistinct =>
        rw [Common.array, (mapM_normalItems hs hread hdistinct hitems).2]
        rfl
    · cases h
  absent v w h hw := by
    unfold Common.array at h
    split at h
    · obtain ⟨items', _, rfl⟩ := Option.map_eq_some_iff.mp h
      cases hw
    · cases h

/-! ## Objects -/

theorem putMember_of_ne {value : Value} (h : value ≠ undefined) (present : Bool) (key : String)
    (known : List (String × Value)) :
    putMember present key value known = (key, value) :: known := by
  unfold putMember
  split
  · exact absurd rfl h
  · rfl

theorem mem_putMember {present : Bool} {key : String} {value : Value}
    {known : List (String × Value)} {m : String × Value}
    (h : m ∈ putMember present key value known) : m = (key, value) ∨ m ∈ known := by
  unfold putMember at h
  split at h
  · split_ifs at h
    · exact List.mem_cons.mp h
    · exact .inr h
  · exact List.mem_cons.mp h

theorem normalMembers_putMember (present : Bool) (key : String) (value : Value)
    (known : List (String × Value)) :
    normalMembers (putMember present key value known) = normalMembers ((key, value) :: known) := by
  unfold putMember
  split
  · split_ifs
    · rfl
    · exact (normalMembers_cons_of_none rfl).symm
  · rfl

theorem parseShape_cons {key : String} {schema : Schema} {shape : List (String × Schema)}
    {members known : List (String × Value)} :
    parseShape ((key, schema) :: shape) members = some known ↔
      ∃ value rest, schema ((members.lookup key).getD undefined) = some value ∧
      parseShape shape members = some rest ∧
        known = putMember (key ∈ keys members) key value rest := by
  rw [parseShape]
  constructor
  · intro h
    obtain ⟨value, hvalue, h⟩ := Option.bind_eq_some_iff.mp h
    obtain ⟨rest, hrest, h⟩ := Option.bind_eq_some_iff.mp h
    exact ⟨value, rest, hvalue, hrest, (Option.some.inj h).symm⟩
  · rintro ⟨value, rest, hvalue, hrest, rfl⟩
    exact Option.bind_eq_some_iff.mpr ⟨value, hvalue,
      Option.bind_eq_some_iff.mpr ⟨rest, hrest, rfl⟩⟩

theorem keys_putMember (present : Bool) (key : String) (value : Value)
    (known : List (String × Value)) :
    (keys (putMember present key value known)).Sublist (key :: keys known) := by
  unfold putMember
  split
  · split_ifs
    · exact .refl _
    · exact List.sublist_cons_self _ _
  · exact .refl _

theorem keys_parseShape {shape : List (String × Schema)} {members known : List (String × Value)}
    (h : parseShape shape members = some known) : (keys known).Sublist (keys shape) := by
  induction shape generalizing known with
  | nil =>
    cases h
    exact .slnil
  | cons s shape ih =>
    obtain ⟨value, rest, _, hrest, rfl⟩ := parseShape_cons.mp h
    exact (keys_putMember _ _ _ _).trans ((ih hrest).cons_cons _)

theorem distinct_getD {members : List (String × Value)} (h : ∀ m ∈ members, m.2.Distinct)
    (key : String) :
    ((members.lookup key).getD undefined).Distinct := by
  cases hl : members.lookup key with
  | some value => exact h (key, value) (mem_of_lookup hl)
  | none => exact .leaf _

theorem distinct_parseShape {shape : List (String × Schema)} (hs : ∀ s ∈ shape, Stable s.2)
    {members known : List (String × Value)} (hm : ∀ m ∈ members, m.2.Distinct)
    (h : parseShape shape members = some known) :
    ∀ m ∈ known, m.2.Distinct := by
  induction shape generalizing known with
  | nil =>
    cases h
    exact nofun
  | cons s shape ih =>
    obtain ⟨value, rest, hvalue, hrest, rfl⟩ := parseShape_cons.mp h
    obtain ⟨hstable, hshape⟩ := List.forall_mem_cons.mp hs
    intro m hmem
    rcases mem_putMember hmem with rfl | hmem
    · exact hstable.distinct _ _ (distinct_getD hm _) hvalue
    · exact ih hshape hrest m hmem

/-- Members whose values are what is read back of those returned are returned as they are. -/
theorem parseShape_normal {shape : List (String × Schema)} (hn : (keys shape).Nodup)
    (hs : ∀ s ∈ shape, Stable s.2) {members known : List (String × Value)}
    (hm : ∀ m ∈ members, m.2.Distinct) (h : parseShape shape members = some known)
    {js : List (String × Value)}
    (hjs : ∀ key ∈ keys shape, js.lookup key = (normalMembers known).lookup key) :
    parseShape shape js = some (normalMembers known) := by
  induction shape generalizing known with
  | nil =>
    cases h
    rfl
  | cons s shape ih =>
    obtain ⟨key, schema⟩ := s
    obtain ⟨value, rest, hvalue, hrest, rfl⟩ := parseShape_cons.mp h
    obtain ⟨hkey, hn⟩ := List.nodup_cons.mp hn
    obtain ⟨hstable, hshape⟩ := List.forall_mem_cons.mp hs
    obtain ⟨hfirst, hlater⟩ := List.forall_mem_cons.mp hjs
    have hkeyRest : key ∉ keys (normalMembers rest) := fun hmem =>
      hkey ((keys_parseShape hrest).subset ((keys_normalMembers rest).subset hmem))
    rw [normalMembers_putMember] at hfirst ⊢
    refine parseShape_cons.mpr ?_
    cases hj : normal value with
    | some j =>
      rw [normalMembers_cons_of_some hj] at hfirst ⊢
      rw [lookup_cons_of_eq] at hfirst
      refine ⟨j, normalMembers rest, ?_, ih hn hshape hrest fun key' hkey' => ?_, ?_⟩
      · rw [hfirst, Option.getD_some]
        exact hstable.normal _ _ _ (distinct_getD hm key) hvalue hj
      · have hne : key ≠ key' := fun heq => hkey (heq ▸ hkey')
        rw [hlater key' hkey', normalMembers_putMember, normalMembers_cons_of_some hj,
          lookup_cons_of_ne (m := (key, j)) hne]
      · exact (putMember_of_ne (ne_undefined_of_normal hj) _ _ _).symm
    | none =>
      rw [normalMembers_cons_of_none hj] at hfirst ⊢
      rw [lookup_eq_none_iff.mpr hkeyRest] at hfirst
      refine ⟨undefined, normalMembers rest, ?_, ih hn hshape hrest fun key' hkey' => ?_, ?_⟩
      · rw [hfirst, Option.getD_none]
        exact hstable.absent _ _ hvalue hj
      · rw [hlater key' hkey', normalMembers_putMember, normalMembers_cons_of_none hj]
      · have habsent : key ∉ keys js := lookup_eq_none_iff.mp hfirst
        rw [putMember, if_neg (by simpa using habsent)]

theorem looseObject_eq_some {shape : List (String × Schema)} {v w : Value}
    (h : looseObject shape v = some w) :
    ∃ members known, v = obj members ∧ parseShape shape members = some known ∧
      w = obj (known ++ members.filter fun m => isOther shape m.1) := by
  cases v with
  | leaf l => cases h
  | arr items => cases h
  | obj members =>
    obtain ⟨known, hknown, h⟩ := Option.bind_eq_some_iff.mp h
    exact ⟨members, known, rfl, hknown, (Option.some.inj h).symm⟩

/-- The members that are known are those of the shape, and the others are not. -/
theorem filter_isOther_of_known {shape : List (String × Schema)} {known : List (String × Value)}
    (h : ∀ key ∈ keys known, key ∈ keys shape) :
    known.filter (fun m => isOther shape m.1) = [] := by
  refine List.filter_eq_nil_iff.mpr fun m hm => ?_
  have hmem := h m.1 (mem_keys_of_mem hm)
  simp [isOther, hmem]

theorem Stable.looseObject {shape : List (String × Schema)} (hn : (keys shape).Nodup)
    (hs : ∀ s ∈ shape, Stable s.2) :
    Stable (looseObject shape) where
  distinct v w hv h := by
    obtain ⟨members, known, rfl, hknown, rfl⟩ := looseObject_eq_some h
    obtain ⟨hnodup, hm⟩ : (keys members).Nodup ∧ ∀ m ∈ members, m.2.Distinct := by
      cases hv with
      | obj hnodup hm => exact ⟨hnodup, hm⟩
    refine .obj ?_ fun m hmem => ?_
    · rw [keys, List.map_append]
      refine List.nodup_append'.mpr ⟨(keys_parseShape hknown).nodup hn,
        (List.filter_sublist.map Prod.fst).nodup hnodup, fun key hkey hother => ?_⟩
      obtain ⟨m, hmem, rfl⟩ := List.mem_map.mp hother
      have hnot := (List.mem_filter.mp hmem).2
      rw [isOther, decide_eq_true_eq] at hnot
      exact hnot.1 ((keys_parseShape hknown).subset hkey)
    · rcases List.mem_append.mp hmem with hmem | hmem
      · exact distinct_parseShape hs hm hknown m hmem
      · exact hm m (List.mem_of_mem_filter hmem)
  normal v w j hv h hj := by
    obtain ⟨members, known, rfl, hknown, rfl⟩ := looseObject_eq_some h
    have hm : ∀ m ∈ members, m.2.Distinct := by
      cases hv with
      | obj _ hm => exact hm
    cases hj
    rw [normalMembers_append, ← filter_normalMembers]
    have hkeys : ∀ key ∈ keys (normalMembers known), key ∈ keys shape := fun key hkey =>
      (keys_parseShape hknown).subset ((keys_normalMembers known).subset hkey)
    -- A member of the shape is found among those that are known.
    have hlookup : ∀ key ∈ keys shape,
        (normalMembers known ++ (normalMembers members).filter fun m =>
        isOther shape m.1).lookup key = (normalMembers known).lookup key := by
      intro key hkey
      have hother : ((normalMembers members).filter fun m => isOther shape m.1).lookup key =
          none := by
        refine lookup_eq_none_iff.mpr fun hmem => ?_
        obtain ⟨m, hm, rfl⟩ := List.mem_map.mp hmem
        have hnot := (List.mem_filter.mp hm).2
        rw [isOther, decide_eq_true_eq] at hnot
        exact hnot.1 hkey
      rw [List.lookup_append, hother, Option.or_none]
    refine Option.bind_eq_some_iff.mpr ⟨_, parseShape_normal hn hs hm hknown hlookup, ?_⟩
    rw [List.filter_append, filter_isOther_of_known hkeys, List.nil_append, List.filter_filter]
    simp only [Bool.and_self]
  absent v w h hw := by
    obtain ⟨_, _, _, _, rfl⟩ := looseObject_eq_some h
    cases hw

/-- An object is read back of what the schema of an object returns. -/
theorem normal_looseObject {shape : List (String × Schema)} {v w : Value}
    (h : looseObject shape v = some w) :
    Json.normal w ≠ none := by
  obtain ⟨_, _, _, _, rfl⟩ := looseObject_eq_some h
  exact Option.some_ne_none _

theorem mem_parseShape {shape : List (String × Schema)} {members known : List (String × Value)}
    (h : parseShape shape members = some known) {m : String × Value} (hm : m ∈ known) :
    ∃ schema v, (m.1, schema) ∈ shape ∧ schema v = some m.2 := by
  induction shape generalizing known with
  | nil =>
    cases h
    cases hm
  | cons s shape ih =>
    obtain ⟨value, rest, hvalue, hrest, rfl⟩ := parseShape_cons.mp h
    rcases mem_putMember hm with rfl | hm
    · exact ⟨_, _, List.mem_cons_self, hvalue⟩
    · obtain ⟨schema, v, hmem, hv⟩ := ih hrest hm
      exact ⟨schema, v, List.mem_cons_of_mem _ hmem, hv⟩

/-- A member with a schema is what the schema returns. -/
theorem exists_of_lookup_looseObject {shape : List (String × Schema)}
    (hn : (keys shape).Nodup) {key : String} {schema : Schema} (hs : (key, schema) ∈ shape)
    {v value : Value} {members : List (String × Value)}
    (h : looseObject shape v = some (obj members)) (hl : members.lookup key = some value) :
    ∃ v, schema v = some value := by
  obtain ⟨input, known, rfl, hknown, heq⟩ := looseObject_eq_some h
  cases heq
  rcases List.mem_append.mp (mem_of_lookup hl) with hmem | hmem
  · obtain ⟨schema', v, hmem', hv⟩ := mem_parseShape hknown hmem
    have hschema : some schema = some schema' :=
      (lookup_of_mem hn hs).symm.trans (lookup_of_mem hn hmem')
    exact ⟨v, Option.some.inj hschema ▸ hv⟩
  · have hnot := (List.mem_filter.mp hmem).2
    rw [isOther, decide_eq_true_eq] at hnot
    exact absurd (mem_keys_of_mem hs) hnot.1

/-- An optional member is absent, or what its schema returns. -/
theorem get_optional {shape : List (String × Schema)} (hn : (keys shape).Nodup) {key : String}
    {schema : Schema} (hs : (key, optional schema) ∈ shape)
    (hkey : inherited key = undefined) {v w : Value} (h : looseObject shape v = some w) :
    w.get key = undefined ∨ ∃ u, schema u = some (w.get key) := by
  obtain ⟨input, known, rfl, hknown, rfl⟩ := looseObject_eq_some h
  cases hl : (known ++ input.filter fun m => isOther shape m.1).lookup key with
  | none =>
    rw [get_obj_of_none hl]
    exact .inl hkey
  | some value =>
    rw [get_obj_of_some hl]
    obtain ⟨u, hu⟩ := exists_of_lookup_looseObject hn hs h hl
    by_cases hundefined : u = undefined
    · subst hundefined
      cases hu
      exact .inl rfl
    · rw [optional_of_ne hundefined] at hu
      exact .inr ⟨u, hu⟩

/-- A member that is absent, or else a JSON value, is read back as it is. -/
theorem get_normal_of {shape : List (String × Schema)} (hn : (keys shape).Nodup) {key : String}
    {schema : Schema} (hs : (key, schema) ∈ shape)
    (hvalue : ∀ v u, schema v = some u → u = undefined ∨ u.IsJson)
    (hinherited : inherited key = undefined) {v w j : Value} (h : looseObject shape v = some w)
    (hw : w.Distinct) (hj : Json.normal w = some j) : j.get key = w.get key := by
  obtain ⟨input, known, rfl, hknown, rfl⟩ := looseObject_eq_some h
  cases hj
  cases hw with
  | obj hnodup _ =>
    have hlookup := lookup_normalMembers hnodup key
    cases hl : (known ++ input.filter fun m => isOther shape m.1).lookup key with
    | none =>
      rw [hl, Option.bind_none] at hlookup
      rw [get_obj_of_none hl, get_obj_of_none hlookup]
    | some value =>
      rw [hl, Option.bind_some] at hlookup
      obtain ⟨u, hu⟩ := exists_of_lookup_looseObject hn hs h hl
      rcases hvalue u value hu with rfl | hjson
      · rw [get_obj_of_some hl, get_obj_of_none hlookup, hinherited]
      · rw [normal_of_isJson hjson] at hlookup
        rw [get_obj_of_some hl, get_obj_of_some hlookup]

/-- A member that is optional, or else a JSON value, is read back as it is. -/
theorem get_normal {shape : List (String × Schema)} (hn : (keys shape).Nodup) {key : String}
    {schema : Schema} (hs : (key, optional schema) ∈ shape) (hexact : Exact schema)
    (hinherited : inherited key = undefined) {v w j : Value} (h : looseObject shape v = some w)
    (hw : w.Distinct) (hj : Json.normal w = some j) :
    j.get key = w.get key := by
  refine get_normal_of hn hs (fun u value hu => ?_) hinherited h hw hj
  by_cases hundefined : u = undefined
  · subst hundefined
    cases hu
    exact .inl rfl
  · rw [optional_of_ne hundefined] at hu
    obtain ⟨rfl, hjson⟩ := hexact _ _ hu
    exact .inr hjson

/-! ## Members that are returned as they are -/

/-- A schema that returns the value that it accepts. -/
def Keeps (schema : Schema) : Prop := ∀ v w, schema v = some w → w = v

theorem Exact.keeps {schema : Schema} (h : Exact schema) : Keeps schema :=
  fun v w hv => (h v w hv).1

theorem Keeps.optional {schema : Schema} (h : Keeps schema) : Keeps (optional schema) := by
  intro v w hv
  by_cases hundefined : v = undefined
  · subst hundefined
    exact (Option.some.inj hv).symm
  · rw [optional_of_ne hundefined] at hv
    exact h v w hv

theorem lookup_putMember_of_ne {key key' : String} (h : key ≠ key') (present : Bool) (value : Value)
    (known : List (String × Value)) :
    (putMember present key value known).lookup key' = known.lookup key' := by
  unfold putMember
  split
  · split_ifs
    · exact lookup_cons_of_ne h known
    · rfl
  · exact lookup_cons_of_ne h known

/-- A member is found among those that are known as it is in the input. -/
theorem lookup_parseShape {shape : List (String × Schema)} (hn : (keys shape).Nodup) {key : String}
    {schema : Schema} (hs : (key, schema) ∈ shape) (hkeeps : Keeps schema)
    {members known : List (String × Value)} (h : parseShape shape members = some known) :
    known.lookup key = members.lookup key := by
  induction shape generalizing known with
  | nil => cases hs
  | cons s shape ih =>
    obtain ⟨key', schema'⟩ := s
    obtain ⟨value, rest, hvalue, hrest, rfl⟩ := parseShape_cons.mp h
    obtain ⟨hkey, hn⟩ := List.nodup_cons.mp hn
    rcases List.mem_cons.mp hs with heq | hs
    · cases heq
      have hv := hkeeps _ _ hvalue
      have hrestKey : rest.lookup key = none :=
        lookup_eq_none_iff.mpr fun hmem => hkey ((keys_parseShape hrest).subset hmem)
      cases hl : members.lookup key with
      | some x =>
        have hpresent : key ∈ keys members := mem_keys_of_mem (mem_of_lookup hl)
        rw [hv, hl, Option.getD_some]
        unfold putMember
        split
        · rw [if_pos (by simpa using hpresent)]
          exact lookup_cons_of_eq _ _ _
        · exact lookup_cons_of_eq _ _ _
      | none =>
        rw [hv, hl, Option.getD_none, putMember, if_neg (by simpa using lookup_eq_none_iff.mp hl)]
        exact hrestKey
    · have hne : key' ≠ key := by
        rintro rfl
        have hmem := mem_keys_of_mem hs
        exact hkey hmem
      rw [lookup_putMember_of_ne hne]
      exact ih hn hs hrest

/-- A member that its schema returns as it is is found as it is in the input. -/
theorem child_looseObject {shape : List (String × Schema)} (hn : (keys shape).Nodup) {key : String}
    {schema : Schema} (hs : (key, schema) ∈ shape) (hkeeps : Keeps schema) {v w : Value}
    (h : looseObject shape v = some w) :
    w.child (.name key) = v.child (.name key) := by
  obtain ⟨members, known, rfl, hknown, rfl⟩ := looseObject_eq_some h
  have hother : (members.filter fun m => isOther shape m.1).lookup key = none := by
    refine lookup_eq_none_iff.mpr fun hmem => ?_
    obtain ⟨m, hm, rfl⟩ := List.mem_map.mp hmem
    have hnot := (List.mem_filter.mp hm).2
    rw [isOther, decide_eq_true_eq] at hnot
    exact hnot.1 (mem_keys_of_mem hs)
  simp only [Value.child, List.lookup_append, hother, Option.or_none,
    lookup_parseShape hn hs hkeeps hknown]

theorem get_looseObject {shape : List (String × Schema)} (hn : (keys shape).Nodup) {key : String}
    {schema : Schema} (hs : (key, schema) ∈ shape) (hkeeps : Keeps schema) {v w : Value}
    (h : looseObject shape v = some w) :
    w.get key = v.get key := by
  have hchild := child_looseObject hn hs hkeeps h
  obtain ⟨members, known, rfl, hknown, rfl⟩ := looseObject_eq_some h
  simp only [Value.child] at hchild
  simp only [Value.get, hchild]

/-- A member that two schemas return as it is. -/
theorem get_eq_get {shape shape' : List (String × Schema)} (hn : (keys shape).Nodup)
    (hn' : (keys shape').Nodup) {key : String} {schema schema' : Schema}
    (hs : (key, schema) ∈ shape) (hs' : (key, schema') ∈ shape') (hkeeps : Keeps schema)
    (hkeeps' : Keeps schema') {v w w' : Value} (h : looseObject shape v = some w)
    (h' : looseObject shape' v = some w') : w.get key = w'.get key := by
  rw [get_looseObject hn hs hkeeps h, get_looseObject hn' hs' hkeeps' h']

/-- What a schema returns for a member. -/
theorem schema_get_looseObject {shape : List (String × Schema)} {key : String} {schema : Schema}
    (hs : (key, schema) ∈ shape) {members : List (String × Value)} {w : Value}
    (h : looseObject shape (obj members) = some w) :
    ∃ value, schema ((members.lookup key).getD undefined) = some value := by
  obtain ⟨members', known, heq, hknown, rfl⟩ := looseObject_eq_some h
  cases heq
  clear h
  induction shape generalizing known with
  | nil => cases hs
  | cons s shape ih =>
    obtain ⟨value, rest, hvalue, hrest, rfl⟩ := parseShape_cons.mp hknown
    rcases List.mem_cons.mp hs with rfl | hs
    · exact ⟨value, hvalue⟩
    · exact ih hs rest hrest

/-- A member that its schema returns as it is is accepted by the schema. -/
theorem accepts_get {shape : List (String × Schema)} (hn : (keys shape).Nodup) {key : String}
    {schema : Schema} (hs : (key, schema) ∈ shape) (hkey : inherited key = undefined)
    (hkeeps : Keeps schema) {v w : Value} (h : looseObject shape v = some w) :
    schema (w.get key) = some (w.get key) := by
  obtain ⟨members, _, rfl, _, _⟩ := looseObject_eq_some h
  obtain ⟨value, hvalue⟩ := schema_get_looseObject hs h
  have hget : (obj members).get key = (members.lookup key).getD undefined := by rw [Value.get, hkey]
  rw [get_looseObject hn hs hkeeps h, hget, hvalue, hkeeps _ _ hvalue]

/-! ## Texts -/

theorem isBase64Url_encode (bytes : List UInt8) :
    isBase64Url (String.ofList (Base64url.encode bytes)) = true := by
  rw [isBase64Url, String.toList_ofList, decide_eq_true_eq]
  constructor
  · refine List.all_eq_true.mpr fun c hc => ?_
    exact List.contains_iff_mem.mpr (Base64url.mem_chars_of_encode bytes c hc)
  · rw [Base64url.length_encode]
    split_ifs <;> omega

theorem not_mem_of_isBase64Url {s : String} (h : isBase64Url s = true) : '.' ∉ s.toList := by
  rw [isBase64Url, decide_eq_true_eq] at h
  intro hmem
  have hdot := List.all_eq_true.mp h.1 '.' hmem
  exact absurd hdot (by decide)

end IdentityCommon.Common
