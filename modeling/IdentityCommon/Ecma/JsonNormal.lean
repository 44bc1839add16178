import IdentityCommon.Ecma.JsonRoundTrip

/-!
# What is left of a value in JSON text

`JSON.parse(JSON.stringify(value))` for values that need not be JSON values: members without a text
are left out, and elements without one become `null`.

## Main definitions

- `Json.normal` — what a value is read back as, if it has a text

## Main results

- `stringify_normal` — the text of a value is the text of what it is read back as
- `parse_stringify_normal` — the text is read as that
- `normal_of_isJson` — a JSON value is read back as itself
-/

namespace IdentityCommon.Ecma.Json

open AssocList Value

def normalLeaf : Leaf → Option Value
  | .undefined | .notDisclosed | .builtin _ => none
  | .objectPrototype | .host _ => some (obj [])
  | l => some (leaf l)

mutual

/-- What a value is read back as. -/
def normal : Value → Option Value
  | leaf l => normalLeaf l
  | arr items => some (arr (normalItems items))
  | obj members => some (obj (normalMembers members))

def normalItems : List Value → List Value
  | [] => []
  | item :: items => (normal item).getD null :: normalItems items

def normalMembers : List (String × Value) → List (String × Value)
  | [] => []
  | (key, value) :: members =>
    match normal value with
    | some value => (key, value) :: normalMembers members
    | none => normalMembers members

end

theorem normalMembers_cons_of_some {key : String} {value j : Value}
    {members : List (String × Value)} (h : normal value = some j) :
    normalMembers ((key, value) :: members) = (key, j) :: normalMembers members := by
  rw [normalMembers, h]

theorem normalMembers_cons_of_none {key : String} {value : Value} {members : List (String × Value)}
    (h : normal value = none) :
    normalMembers ((key, value) :: members) = normalMembers members := by
  rw [normalMembers, h]

theorem normalMembers_append (members members' : List (String × Value)) :
    normalMembers (members ++ members') = normalMembers members ++ normalMembers members' := by
  induction members with
  | nil => rfl
  | cons m members ih =>
    obtain ⟨key, value⟩ := m
    rw [List.cons_append]
    cases h : normal value with
    | some j => rw [normalMembers_cons_of_some h, normalMembers_cons_of_some h, ih,
        List.cons_append]
    | none => rw [normalMembers_cons_of_none h, normalMembers_cons_of_none h, ih]

theorem keys_normalMembers (members : List (String × Value)) :
    (keys (normalMembers members)).Sublist (keys members) := by
  induction members with
  | nil => exact .slnil
  | cons m members ih =>
    obtain ⟨key, value⟩ := m
    cases h : normal value with
    | some j =>
      rw [normalMembers_cons_of_some h]
      exact ih.cons_cons key
    | none =>
      rw [normalMembers_cons_of_none h]
      exact ih.cons key

theorem mem_normalMembers {members : List (String × Value)} {m : String × Value}
    (h : m ∈ normalMembers members) :
    ∃ value, (m.1, value) ∈ members ∧ normal value = some m.2 := by
  induction members with
  | nil => cases h
  | cons m' members ih =>
    obtain ⟨key, value⟩ := m'
    cases hv : normal value with
    | some j =>
      rw [normalMembers_cons_of_some hv] at h
      rcases List.mem_cons.mp h with rfl | h
      · exact ⟨value, List.mem_cons_self, hv⟩
      · obtain ⟨value', hmem, hnormal⟩ := ih h
        exact ⟨value', List.mem_cons_of_mem _ hmem, hnormal⟩
    | none =>
      rw [normalMembers_cons_of_none hv] at h
      obtain ⟨value', hmem, hnormal⟩ := ih h
      exact ⟨value', List.mem_cons_of_mem _ hmem, hnormal⟩

/-- A member is read back if its value is. -/
theorem lookup_normalMembers {members : List (String × Value)} (hn : (keys members).Nodup)
    (key : String) :
    (normalMembers members).lookup key = (members.lookup key).bind normal := by
  induction members with
  | nil => rfl
  | cons m members ih =>
    obtain ⟨name, value⟩ := m
    obtain ⟨hname, hn⟩ := List.nodup_cons.mp hn
    by_cases hkey : name = key
    · subst hkey
      rw [lookup_cons_of_eq, Option.bind_some]
      cases h : normal value with
      | some j => rw [normalMembers_cons_of_some h, lookup_cons_of_eq]
      | none =>
        rw [normalMembers_cons_of_none h, lookup_eq_none_iff]
        exact fun hmem => hname ((keys_normalMembers members).subset hmem)
    · rw [lookup_cons_of_ne (m := (name, value)) hkey, ← ih hn]
      cases h : normal value with
      | some j => rw [normalMembers_cons_of_some h, lookup_cons_of_ne (m := (name, j)) hkey]
      | none => rw [normalMembers_cons_of_none h]

theorem filter_normalMembers (p : String → Bool) (members : List (String × Value)) :
    (normalMembers members).filter (fun m => p m.1) =
      normalMembers (members.filter fun m => p m.1) := by
  induction members with
  | nil => rfl
  | cons m members ih =>
    obtain ⟨key, value⟩ := m
    cases h : normal value with
    | some j =>
      rw [normalMembers_cons_of_some h, List.filter_cons, List.filter_cons]
      dsimp only
      split_ifs
      · rw [normalMembers_cons_of_some h, ih]
      · exact ih
    | none =>
      rw [normalMembers_cons_of_none h, List.filter_cons, ih]
      dsimp only
      split_ifs
      · rw [normalMembers_cons_of_none h]
      · rfl

/-! ## Texts -/

theorem stringify_normalLeaf (l : Leaf) : stringify (leaf l) = (normalLeaf l).bind stringify := by
  cases l <;> rfl

theorem stringify_normal (v : Value) : stringify v = (normal v).bind stringify := by
  induction v with
  | leaf l => rw [normal, stringify_normalLeaf]
  | arr items ih =>
    have htexts : itemTexts (normalItems items) = itemTexts items := by
      induction items with
      | nil => rfl
      | cons item items ihs =>
        obtain ⟨hitem, hitems⟩ := List.forall_mem_cons.mp ih
        rw [normalItems, itemTexts, itemTexts, ihs hitems, hitem]
        cases normal item <;> rfl
    rw [normal, Option.bind_some, stringify, stringify, htexts]
  | obj members ih =>
    have htexts : memberTexts (normalMembers members) = memberTexts members := by
      induction members with
      | nil => rfl
      | cons m members ihs =>
        obtain ⟨key, value⟩ := m
        obtain ⟨hm, hmembers⟩ := List.forall_mem_cons.mp ih
        dsimp only at hm
        cases h : normal value with
        | some j =>
          rw [h, Option.bind_some] at hm
          rw [normalMembers_cons_of_some h, memberTexts, memberTexts, ihs hmembers, hm]
        | none =>
          rw [h, Option.bind_none] at hm
          rw [normalMembers_cons_of_none h, memberTexts, hm, ihs hmembers]
    rw [normal, Option.bind_some, stringify, stringify, htexts]

theorem isJson_normal {v j : Value} (hv : v.Distinct) (h : normal v = some j) : j.IsJson := by
  induction hv generalizing j with
  | leaf l =>
    have hobj : (obj []).IsJson := .obj List.nodup_nil nofun
    cases l with
    | undefined => cases h
    | notDisclosed => cases h
    | builtin name => cases h
    | objectPrototype => cases h; exact hobj
    | host text => cases h; exact hobj
    | null => cases h; exact .leaf rfl
    | bool b => cases h; exact .leaf rfl
    | num n => cases h; exact .leaf rfl
    | str s => cases h; exact .leaf rfl
  | @arr items _ ih =>
    cases h
    refine .arr ?_
    induction items with
    | nil => exact nofun
    | cons item items ihs =>
      obtain ⟨hitem, hitems⟩ := List.forall_mem_cons.mp ih
      rename_i hd
      rw [normalItems]
      refine List.forall_mem_cons.mpr
        ⟨?_, ihs (fun x hx => hd x (List.mem_cons_of_mem _ hx)) hitems⟩
      cases hj : normal item with
      | some j => exact hitem hj
      | none => exact .leaf rfl
  | @obj members hn _ ih =>
    cases h
    refine .obj ((keys_normalMembers members).nodup hn) fun m hm => ?_
    obtain ⟨value, hmem, hnormal⟩ := mem_normalMembers hm
    exact ih (m.1, value) hmem hnormal

/-- A JSON value is read back as itself. -/
theorem normal_of_isJson {v : Value} (h : v.IsJson) : normal v = some v := by
  induction h with
  | @leaf l hl =>
    match l, hl with
    | .null, _ => rfl
    | .bool b, _ => rfl
    | .num n, _ => rfl
    | .str s, _ => rfl
  | @arr items hjson ih =>
    clear hjson
    rw [normal, Option.some.injEq, arr.injEq]
    induction items with
    | nil => rfl
    | cons item items ihs =>
      obtain ⟨hitem, hitems⟩ := List.forall_mem_cons.mp ih
      rw [normalItems, hitem, Option.getD_some, ihs hitems]
  | @obj members hn hjson ih =>
    clear hn hjson
    rw [normal, Option.some.injEq, obj.injEq]
    induction members with
    | nil => rfl
    | cons m members ihs =>
      obtain ⟨key, value⟩ := m
      obtain ⟨hm, hmembers⟩ := List.forall_mem_cons.mp ih
      rw [normalMembers_cons_of_some hm, ihs hmembers]

/-- The text of a value is read as what is left of it. -/
theorem parse_stringify_normal {v j : Value} (hv : v.Distinct) (h : normal v = some j) :
    (stringify v).bind parse = some j := by
  rw [stringify_normal, h, Option.bind_some]
  exact parse_stringify (isJson_normal hv h)

end IdentityCommon.Ecma.Json
