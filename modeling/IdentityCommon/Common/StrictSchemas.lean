import IdentityCommon.Common.Validation
import IdentityCommon.Ecma.Double

/-!
# Schemas of strict objects

More schemas of values: texts with a condition, numbers, records, unions and objects without other
members, and that what they return is accepted again.

## Main definitions

- `textWhere`, `zNumber`, `zInteger`, `record`, `unionOf`, `strictObject`, `tagged` — schemas
- `Settles` — a schema that returns what it returned once more

## Main results

- `Settles.parseShape`, `Settles.strictObject`, `Settles.tagged`, `Settles.refine` — schemas that
  settle
-/

namespace IdentityCommon.Common

open Ecma AssocList Value Json

/-- A text that satisfies a condition. -/
def textWhere (accepts : String → Bool) : Schema
  | str s => if accepts s then some (str s) else none
  | _ => none

def zString : Schema := textWhere fun _ => true

/-- `z.number()`. -/
def zNumber : Schema
  | num n => if (Double.ofNumber n).isFinite then some (num n) else none
  | _ => none

/-- `Number.isSafeInteger(x)`. -/
def isSafeInteger : Double → Bool
  | .finite x => x.value.den = 1 ∧ x.value.num.natAbs ≤ 9007199254740991
  | _ => false

/-- `z.number().int()`. -/
def zInteger : Schema
  | num n => if isSafeInteger (Double.ofNumber n) then some (num n) else none
  | _ => none

/-- `z.never()`. -/
def zNever : Schema := fun _ => none

/-- `z.unknown()`. -/
def zUnknown : Schema := some

/-- `z.record(z.string(), z.unknown())`. An own member `__proto__` is left out. -/
def record : Schema
  | obj members => some (obj (members.filter (·.1 ≠ "__proto__")))
  | _ => none

/-- `z.union(schemas)`. -/
def unionOf : List Schema → Schema
  | [], _ => none
  | schema :: schemas, value => (schema value).or (unionOf schemas value)

/-- `z.object(shape).strict()`. -/
def strictObject (shape : List (String × Schema)) : Schema
  | obj members =>
    if members.any fun m => isOther shape m.1 then none
    else (parseShape shape members).map obj
  | _ => none

/-- One of some strict objects of one member. -/
def tagged (options : List (String × Schema)) : Schema :=
  unionOf (options.map fun option => strictObject [option])

/-- `z.array(schema).min(size)`. -/
def arrayOfAtLeast (size : ℕ) (schema : Schema) : Schema
  | arr items => if size ≤ items.length then (items.mapM schema).map arr else none
  | _ => none

/-! ## What is returned is returned again -/

/-- A schema that returns what it returned once more. -/
def Settles (schema : Schema) : Prop := ∀ v w, schema v = some w → schema w = some w

theorem Keeps.settles {schema : Schema} (h : Keeps schema) : Settles schema := by
  intro v w hv
  obtain rfl := h v w hv
  exact hv

theorem keeps_textWhere (accepts : String → Bool) : Keeps (textWhere accepts) := by
  intro v w h
  unfold textWhere at h
  split at h
  · split_ifs at h
    exact (Option.some.inj h).symm
  · cases h

theorem keeps_zNumber : Keeps zNumber := by
  intro v w h
  unfold zNumber at h
  split at h
  · split_ifs at h
    exact (Option.some.inj h).symm
  · cases h

theorem keeps_zInteger : Keeps zInteger := by
  intro v w h
  unfold zInteger at h
  split at h
  · split_ifs at h
    exact (Option.some.inj h).symm
  · cases h

theorem keeps_zNever : Keeps zNever := fun _ _ h => nomatch h

theorem keeps_zUnknown : Keeps zUnknown := fun _ _ h => (Option.some.inj h).symm

@[simp] theorem settles_textWhere (accepts : String → Bool) : Settles (textWhere accepts) :=
  (keeps_textWhere accepts).settles

@[simp] theorem settles_zNumber : Settles zNumber := keeps_zNumber.settles

@[simp] theorem settles_zInteger : Settles zInteger := keeps_zInteger.settles

@[simp] theorem settles_zNever : Settles zNever := keeps_zNever.settles

@[simp] theorem settles_zUnknown : Settles zUnknown := keeps_zUnknown.settles

@[simp] theorem settles_zBoolean : Settles zBoolean := exact_zBoolean.keeps.settles

@[simp] theorem settles_record : Settles record := by
  intro v w h
  unfold record at h
  split at h
  · next members =>
    obtain rfl := Option.some.inj h
    rw [record, List.filter_filter]
    simp only [Bool.and_self]
  · cases h

@[simp] theorem Settles.optional {schema : Schema} (hs : Settles schema) :
    Settles (optional schema) := by
  intro v w h
  by_cases hv : v = undefined
  · subst hv
    cases h
    rfl
  · rw [optional_of_ne hv] at h
    by_cases hw : w = undefined
    · subst hw
      rfl
    · rw [optional_of_ne hw]
      exact hs v w h

@[simp] theorem Settles.refine {schema : Schema} (hs : Settles schema) (accepts : Value → Bool) :
    Settles (refine schema accepts) := by
  intro v w h
  obtain ⟨hv, hw⟩ := Option.filter_eq_some_iff.mp h
  exact Option.filter_eq_some_iff.mpr ⟨hs v w hv, hw⟩

theorem Settles.mapM {schema : Schema} (hs : Settles schema) {items items' : List Value}
    (h : items.mapM schema = some items') : items'.mapM schema = some items' := by
  induction items generalizing items' with
  | nil =>
    cases h
    rfl
  | cons item items ih =>
    obtain ⟨item', rest, hitem, hrest, rfl⟩ := mapM_eq_some_cons.mp h
    exact mapM_eq_some_cons.mpr ⟨item', rest, hs _ _ hitem, ih hrest, rfl⟩

theorem length_mapM {schema : Schema} {items items' : List Value}
    (h : items.mapM schema = some items') :
    items'.length = items.length := by
  induction items generalizing items' with
  | nil =>
    cases h
    rfl
  | cons item items ih =>
    obtain ⟨item', rest, -, hrest, rfl⟩ := mapM_eq_some_cons.mp h
    rw [List.length_cons, List.length_cons, ih hrest]

/-- An element that is returned is what the schema returns for one of the input. -/
theorem exists_of_mem_mapM {schema : Schema} {items items' : List Value}
    (h : items.mapM schema = some items') {x : Value} (hx : x ∈ items') :
    ∃ item, schema item = some x := by
  induction items generalizing items' with
  | nil =>
    cases h
    cases hx
  | cons item items ih =>
    obtain ⟨item', rest, hitem, hrest, rfl⟩ := mapM_eq_some_cons.mp h
    rcases List.mem_cons.mp hx with rfl | hx
    · exact ⟨item, hitem⟩
    · exact ih hrest hx

@[simp] theorem Settles.arrayOfAtLeast {schema : Schema} (hs : Settles schema) (size : ℕ) :
    Settles (arrayOfAtLeast size schema) := by
  intro v w h
  unfold Common.arrayOfAtLeast at h
  split at h
  · split_ifs at h with hsize
    obtain ⟨items, hitems, rfl⟩ := Option.map_eq_some_iff.mp h
    rw [Common.arrayOfAtLeast, if_pos (by rwa [length_mapM hitems]), hs.mapM hitems]
    rfl
  · cases h

/-! ## Strict objects -/

/-- A member that is not `undefined` is known with what its schema returns for it. -/
theorem lookup_of_parseShape {shape : List (String × Schema)}
    (hn : (keys shape).Nodup) {key : String} {schema : Schema} (hs : (key, schema) ∈ shape)
    {members known : List (String × Value)} (h : parseShape shape members = some known) :
    schema ((members.lookup key).getD undefined) = some ((known.lookup key).getD undefined) := by
  induction shape generalizing known with
  | nil => cases hs
  | cons s shape ih =>
    obtain ⟨value, rest, hvalue, hrest, rfl⟩ := parseShape_cons.mp h
    obtain ⟨hkey, hn⟩ := List.nodup_cons.mp hn
    rcases List.mem_cons.mp hs with rfl | hs
    · dsimp only at hvalue ⊢
      rw [hvalue]
      have hrestKey : rest.lookup key = none :=
        lookup_eq_none_iff.mpr fun hmem => hkey ((keys_parseShape hrest).subset hmem)
      unfold putMember
      split
      · split_ifs
        · rw [lookup_cons_of_eq, Option.getD_some]
        · rw [hrestKey, Option.getD_none]
      · rw [lookup_cons_of_eq, Option.getD_some]
    · have hne : s.1 ≠ key := by
        rintro rfl
        have hmem := mem_keys_of_mem hs
        exact hkey hmem
      rw [lookup_putMember_of_ne hne]
      exact ih hn hs hrest

theorem Settles.parseShape {shape : List (String × Schema)} (hn : (keys shape).Nodup)
    (hs : ∀ s ∈ shape, Settles s.2) {members known : List (String × Value)}
    (h : parseShape shape members = some known) {js : List (String × Value)}
    (hjs : ∀ key ∈ keys shape, js.lookup key = known.lookup key) :
    parseShape shape js = some known := by
  induction shape generalizing known with
  | nil =>
    cases h
    rfl
  | cons s shape ih =>
    obtain ⟨key, schema⟩ := s
    obtain ⟨value, rest, hvalue, hrest, rfl⟩ := parseShape_cons.mp h
    obtain ⟨hkey, hn⟩ := List.nodup_cons.mp hn
    obtain ⟨hsettles, hshape⟩ := List.forall_mem_cons.mp hs
    obtain ⟨hfirst, hlater⟩ := List.forall_mem_cons.mp hjs
    have hrestKey : rest.lookup key = none :=
      lookup_eq_none_iff.mpr fun hmem => hkey ((keys_parseShape hrest).subset hmem)
    have hrest' : Common.parseShape shape js = some rest := by
      refine ih hn hshape hrest fun key' hkey' => ?_
      have hne : key ≠ key' := fun heq => hkey (heq ▸ hkey')
      rw [hlater key' hkey', lookup_putMember_of_ne hne]
    by_cases habsent : value = undefined ∧ key ∉ keys members
    · obtain ⟨rfl, hmem⟩ := habsent
      have hlookup : js.lookup key = none := by
        rw [hfirst, putMember, if_neg (by simpa using hmem), hrestKey]
      refine parseShape_cons.mpr ⟨undefined, rest, ?_, hrest', ?_⟩
      · rw [hlookup, Option.getD_none]
        exact hsettles _ _ hvalue
      · rw [putMember, if_neg (by simpa using hmem), putMember,
          if_neg (by simpa using lookup_eq_none_iff.mp hlookup)]
    · have hput : putMember (key ∈ keys members) key value rest = (key, value) :: rest := by
        unfold putMember
        split
        · rw [if_pos (by simpa using habsent)]
        · rfl
      rw [hput] at hfirst ⊢
      rw [lookup_cons_of_eq] at hfirst
      have hmem : key ∈ keys js := by
        rw [← lookup_isSome_iff, hfirst]
        rfl
      refine parseShape_cons.mpr ⟨value, rest, ?_, hrest', ?_⟩
      · rw [hfirst, Option.getD_some]
        exact hsettles _ _ hvalue
      · unfold putMember
        split
        · rw [if_pos (by simpa using hmem)]
        · rfl

theorem strictObject_eq_some {shape : List (String × Schema)} {v w : Value}
    (h : strictObject shape v = some w) :
    ∃ members known, v = obj members ∧ (∀ m ∈ members, isOther shape m.1 = false) ∧
      parseShape shape members = some known ∧ w = obj known := by
  unfold strictObject at h
  split at h
  · next members =>
    split_ifs at h with hother
    obtain ⟨known, hknown, rfl⟩ := Option.map_eq_some_iff.mp h
    refine ⟨members, known, rfl, fun m hm => ?_, hknown, rfl⟩
    rw [Bool.not_eq_true, List.any_eq_false] at hother
    exact Bool.eq_false_iff.mpr (hother m hm)
  · cases h

theorem strictObject_of_parseShape {shape : List (String × Schema)}
    {members known : List (String × Value)} (hkeys : ∀ key ∈ keys members, key ∈ keys shape)
    (h : parseShape shape members = some known) :
    strictObject shape (obj members) = some (obj known) := by
  have hother : ¬(members.any fun m => isOther shape m.1) = true := by
    rw [Bool.not_eq_true, List.any_eq_false]
    intro m hm
    simp [isOther, hkeys m.1 (mem_keys_of_mem hm)]
  rw [strictObject, if_neg hother, h]
  rfl

theorem Settles.strictObject {shape : List (String × Schema)} (hn : (keys shape).Nodup)
    (hs : ∀ s ∈ shape, Settles s.2) :
    Settles (strictObject shape) := by
  intro v w h
  obtain ⟨members, known, rfl, -, hknown, rfl⟩ := strictObject_eq_some h
  refine strictObject_of_parseShape (fun key hkey => (keys_parseShape hknown).subset hkey) ?_
  exact Settles.parseShape hn hs hknown fun _ _ => rfl

theorem strictObject_singleton_of_ne {option : String × Schema}
    (habsent : option.2 undefined = none) {key : String} (hne : key ≠ option.1) {value : Value} :
    strictObject [option] (obj [(key, value)]) = none := by
  rw [Option.eq_none_iff_forall_ne_some]
  intro w h
  obtain ⟨members, known, heq, -, hknown, -⟩ := strictObject_eq_some h
  cases heq
  obtain ⟨value', _, hvalue, -, -⟩ := parseShape_cons.mp hknown
  rw [lookup_cons_of_ne (m := (key, value)) hne, List.lookup_nil,
    Option.getD_none, habsent] at hvalue
  cases hvalue

/-- An object of one member is accepted by the option of the union that has the name of the
member. -/
theorem Settles.tagged {options : List (String × Schema)} (hn : (keys options).Nodup)
    (hs : ∀ option ∈ options, Settles option.2)
    (habsent : ∀ option ∈ options, option.2 undefined = none) :
    Settles (tagged options) := by
  have hwith : ∀ options : List (String × Schema), (keys options).Nodup →
      (∀ option ∈ options, Settles option.2) →
      (∀ option ∈ options, option.2 undefined = none) → ∀ v w, Common.tagged options v = some w →
      Common.tagged options w = some w ∧ ∃ key ∈ keys options, ∃ value, w = obj [(key, value)] := by
    intro options hn hs habsent v w h
    induction options with
    | nil => cases h
    | cons option options ih =>
      obtain ⟨hkey, hn⟩ := List.nodup_cons.mp hn
      obtain ⟨hsettles, hs⟩ := List.forall_mem_cons.mp hs
      obtain ⟨habsent', habsent⟩ := List.forall_mem_cons.mp habsent
      have hstrict : Settles (Common.strictObject [option]) :=
        .strictObject (List.nodup_singleton _)
        fun s hs => (List.mem_singleton.mp hs).symm ▸ hsettles
      rcases Option.or_eq_some_iff.mp h with hfirst | ⟨-, hlater⟩
      · refine ⟨Option.or_eq_some_iff.mpr (.inl (hstrict v w hfirst)), option.1,
          List.mem_cons_self, ?_⟩
        obtain ⟨members, known, rfl, -, hknown, rfl⟩ := strictObject_eq_some hfirst
        obtain ⟨value, rest, hvalue, hrest, rfl⟩ := parseShape_cons.mp hknown
        cases hrest
        have hne : value ≠ undefined := by
          rintro rfl
          have := hsettles _ _ hvalue
          rw [habsent'] at this
          cases this
        exact ⟨value, by rw [putMember_of_ne hne]⟩
      · obtain ⟨hw, key, hmem, value, rfl⟩ := ih hn hs habsent hlater
        refine ⟨Option.or_eq_some_iff.mpr (.inr ⟨?_, hw⟩), key,
          List.mem_cons_of_mem _ hmem, value, rfl⟩
        have hne : key ≠ option.1 := fun heq => hkey (heq ▸ hmem)
        exact strictObject_singleton_of_ne habsent' hne
  exact fun v w h => (hwith options hn hs habsent v w h).1

/-! ## Unions of strict objects -/

theorem Settles.unionOf_cons {schema : Schema} {schemas : List Schema} (hs : Settles schema)
    (hrest : Settles (unionOf schemas))
    (hdisjoint : ∀ v w, unionOf schemas v = some w → schema w = none) :
    Settles (unionOf (schema :: schemas)) := by
  intro v w h
  rcases Option.or_eq_some_iff.mp h with hfirst | ⟨-, hlater⟩
  · exact Option.or_eq_some_iff.mpr (.inl (hs v w hfirst))
  · exact Option.or_eq_some_iff.mpr (.inr ⟨hdisjoint v w hlater, hrest v w hlater⟩)

theorem settles_unionOf_nil : Settles (unionOf []) := fun _ _ h => nomatch h

theorem strictObject_of_other {shape : List (String × Schema)}
    {members : List (String × Value)} {key : String} (hkey : key ∈ keys members)
    (hother : isOther shape key = true) : strictObject shape (obj members) = none := by
  obtain ⟨m, hm, rfl⟩ := List.mem_map.mp hkey
  exact if_pos (List.any_eq_true.mpr ⟨m, hm, hother⟩)

/-- A member that has a value is known. -/
theorem mem_keys_strictObject {shape : List (String × Schema)} (hn : (keys shape).Nodup)
    {key : String} {schema : Schema} (hs : (key, schema) ∈ shape)
    (hvalue : ∀ v, schema v ≠ some undefined) {v w : Value} (h : strictObject shape v = some w) :
    ∃ known, w = obj known ∧ key ∈ keys known := by
  obtain ⟨members, known, rfl, -, hknown, rfl⟩ := strictObject_eq_some h
  refine ⟨known, rfl, ?_⟩
  by_contra hmem
  have hlookup := lookup_of_parseShape hn hs hknown
  rw [lookup_eq_none_iff.mpr hmem, Option.getD_none] at hlookup
  exact hvalue _ hlookup

theorem textWhere_ne_undefined {accepts : String → Bool} (v : Value) :
    textWhere accepts v ≠ some undefined := by
  intro h
  unfold textWhere at h
  split at h
  · split_ifs at h
    cases h
  · cases h

/-! ## Members that are kept -/

theorem Keeps.arrayOfAtLeast {schema : Schema} (hs : Keeps schema) (size : ℕ) :
    Keeps (arrayOfAtLeast size schema) := by
  have hmap : ∀ {items items' : List Value}, items.mapM schema = some items' → items' = items := by
    intro items
    induction items with
    | nil => exact fun h => (Option.some.inj h).symm
    | cons item items ih =>
      intro items' h
      obtain ⟨item', rest, hitem, hrest, rfl⟩ := mapM_eq_some_cons.mp h
      rw [hs _ _ hitem, ih hrest]
  intro v w h
  unfold Common.arrayOfAtLeast at h
  split at h
  · split_ifs at h
    obtain ⟨items, hitems, rfl⟩ := Option.map_eq_some_iff.mp h
    rw [hmap hitems]
  · cases h

/-- A member of a strict object that its schema returns as it is. -/
theorem get_strictObject {shape : List (String × Schema)} (hn : (keys shape).Nodup) {key : String}
    {schema : Schema} (hs : (key, schema) ∈ shape) (hkeeps : Keeps schema)
    (hkey : inherited key = undefined) {v w : Value} (h : strictObject shape v = some w) :
    w.get key = v.get key := by
  obtain ⟨members, known, rfl, -, hknown, rfl⟩ := strictObject_eq_some h
  rw [Value.get, Value.get, lookup_parseShape hn hs hkeeps hknown, hkey]

/-- What a member of an object is returned as. -/
theorem schema_get_of_looseObject {shape : List (String × Schema)}
    (hn : (keys shape).Nodup) {key : String} {schema : Schema} (hs : (key, schema) ∈ shape)
    (hkey : inherited key = undefined) {v w : Value} (h : looseObject shape v = some w) :
    schema (v.get key) = some (w.get key) := by
  obtain ⟨members, known, rfl, hknown, rfl⟩ := looseObject_eq_some h
  have hother : (members.filter fun m => isOther shape m.1).lookup key = none := by
    refine lookup_eq_none_iff.mpr fun hmem => ?_
    obtain ⟨m, hm, rfl⟩ := List.mem_map.mp hmem
    have hnot := (List.mem_filter.mp hm).2
    rw [isOther, decide_eq_true_eq] at hnot
    exact hnot.1 (mem_keys_of_mem hs)
  rw [Value.get, Value.get, List.lookup_append, hother, Option.or_none, hkey]
  exact lookup_of_parseShape hn hs hknown

/-! ## Objects with distinct names -/

/-- A schema whose objects have distinct names where those of the input have. -/
def KeepsDistinct (schema : Schema) : Prop := ∀ v w, v.Distinct → schema v = some w → w.Distinct

theorem Keeps.keepsDistinct {schema : Schema} (h : Keeps schema) : KeepsDistinct schema :=
  fun v w hv hw => h v w hw ▸ hv

@[simp] theorem keepsDistinct_textWhere (accepts : String → Bool) :
    KeepsDistinct (textWhere accepts) :=
  (keeps_textWhere accepts).keepsDistinct

@[simp] theorem keepsDistinct_zInteger : KeepsDistinct zInteger := keeps_zInteger.keepsDistinct

@[simp] theorem keepsDistinct_zNever : KeepsDistinct zNever := keeps_zNever.keepsDistinct

@[simp] theorem keepsDistinct_zUnknown : KeepsDistinct zUnknown := keeps_zUnknown.keepsDistinct

@[simp] theorem keepsDistinct_zBoolean : KeepsDistinct zBoolean :=
  exact_zBoolean.keeps.keepsDistinct

@[simp] theorem keepsDistinct_record : KeepsDistinct record := by
  intro v w hv h
  unfold record at h
  split at h
  · cases h
    cases hv with
    | obj hnodup hmembers =>
      exact .obj ((List.filter_sublist.map Prod.fst).nodup hnodup) fun m hm => hmembers m
        (List.mem_of_mem_filter hm)
  · cases h

@[simp] theorem KeepsDistinct.optional {schema : Schema} (hs : KeepsDistinct schema) :
    KeepsDistinct (optional schema) := by
  intro v w hv h
  by_cases hundefined : v = undefined
  · subst hundefined
    cases h
    exact hv
  · rw [optional_of_ne hundefined] at h
    exact hs v w hv h

@[simp] theorem KeepsDistinct.refine {schema : Schema} (hs : KeepsDistinct schema)
    (accepts : Value → Bool) :
    KeepsDistinct (refine schema accepts) :=
  fun v w hv h => hs v w hv (Option.filter_eq_some_iff.mp h).1

@[simp] theorem KeepsDistinct.arrayOfAtLeast {schema : Schema}
    (hs : KeepsDistinct schema) (size : ℕ) :
    KeepsDistinct (arrayOfAtLeast size schema) := by
  have hmap : ∀ {items items' : List Value}, (∀ x ∈ items, x.Distinct) →
      items.mapM schema = some items' →
      ∀ x ∈ items', x.Distinct := by
    intro items
    induction items with
    | nil =>
      intro items' _ h
      cases h
      exact nofun
    | cons item items ih =>
      intro items' hall h
      obtain ⟨item', rest, hitem, hrest, rfl⟩ := mapM_eq_some_cons.mp h
      obtain ⟨hfirst, hall⟩ := List.forall_mem_cons.mp hall
      exact List.forall_mem_cons.mpr ⟨hs _ _ hfirst hitem, ih hall hrest⟩
  intro v w hv h
  unfold Common.arrayOfAtLeast at h
  split at h
  · split_ifs at h
    obtain ⟨items, hitems, rfl⟩ := Option.map_eq_some_iff.mp h
    cases hv with
    | arr hall => exact .arr (hmap hall hitems)
  · cases h

theorem KeepsDistinct.parseShape {shape : List (String × Schema)}
    (hs : ∀ s ∈ shape, KeepsDistinct s.2) {members known : List (String × Value)}
    (hm : ∀ m ∈ members, m.2.Distinct) (h : parseShape shape members = some known) :
    ∀ m ∈ known, m.2.Distinct := by
  induction shape generalizing known with
  | nil =>
    cases h
    exact nofun
  | cons s shape ih =>
    obtain ⟨value, rest, hvalue, hrest, rfl⟩ := parseShape_cons.mp h
    obtain ⟨hfirst, hshape⟩ := List.forall_mem_cons.mp hs
    intro m hmem
    rcases mem_putMember hmem with rfl | hmem
    · exact hfirst _ _ (distinct_getD hm _) hvalue
    · exact ih hshape hrest m hmem

theorem KeepsDistinct.strictObject {shape : List (String × Schema)} (hn : (keys shape).Nodup)
    (hs : ∀ s ∈ shape, KeepsDistinct s.2) : KeepsDistinct (strictObject shape) := by
  intro v w hv h
  obtain ⟨members, known, rfl, -, hknown, rfl⟩ := strictObject_eq_some h
  cases hv with
  | obj hnodup hmembers =>
    exact .obj ((keys_parseShape hknown).nodup hn) (KeepsDistinct.parseShape hs hmembers hknown)

theorem KeepsDistinct.tagged {options : List (String × Schema)}
    (hs : ∀ option ∈ options, KeepsDistinct option.2) :
    KeepsDistinct (tagged options) := by
  intro v w hv h
  induction options with
  | nil => cases h
  | cons option options ih =>
    obtain ⟨hfirst, hs⟩ := List.forall_mem_cons.mp hs
    rcases Option.or_eq_some_iff.mp h with h | ⟨-, h⟩
    · have hstrict : KeepsDistinct (Common.strictObject [option]) :=
        .strictObject (List.nodup_singleton _)
        fun s hs => (List.mem_singleton.mp hs).symm ▸ hfirst
      exact hstrict v w hv h
    · exact ih hs h

theorem KeepsDistinct.looseObject {shape : List (String × Schema)} (hn : (keys shape).Nodup)
    (hs : ∀ s ∈ shape, KeepsDistinct s.2) : KeepsDistinct (looseObject shape) := by
  intro v w hv h
  obtain ⟨members, known, rfl, hknown, rfl⟩ := looseObject_eq_some h
  cases hv with
  | obj hnodup hmembers =>
    refine .obj ?_ fun m hmem => ?_
    · rw [keys, List.map_append]
      refine List.nodup_append'.mpr ⟨(keys_parseShape hknown).nodup hn,
        (List.filter_sublist.map Prod.fst).nodup hnodup, fun key hkey hother => ?_⟩
      obtain ⟨m, hmem, rfl⟩ := List.mem_map.mp hother
      have hnot := (List.mem_filter.mp hmem).2
      rw [isOther, decide_eq_true_eq] at hnot
      exact hnot.1 ((keys_parseShape hknown).subset hkey)
    · rcases List.mem_append.mp hmem with hmem | hmem
      · exact KeepsDistinct.parseShape hs hmembers hknown m hmem
      · exact hmembers m (List.mem_of_mem_filter hmem)

end IdentityCommon.Common
