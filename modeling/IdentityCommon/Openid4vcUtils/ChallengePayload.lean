import IdentityCommon.Openid4vcUtils.ChallengeParams

/-!
# Payloads that are read back

Which payloads the parameters of a challenge are read back as.

## Main definitions

- `Representable` — challenges as they are to be read back
- `IsReadAs` — a challenge that was parsed is the one that was encoded
- `memberOf` — the member that the parameters of a member are read as

## Main results

- `lookup_foldl` — a member is read from its own parameters
- `memberOf_iff` — when it is the member that was encoded
- `sameMembers_iff` — when a payload is the one that was encoded
-/

namespace IdentityCommon.Openid4vcUtils

open Ecma AssocList Value

/-! ## Challenges that are to be read back -/

def IsToken (s : String) : Prop := s ≠ "" ∧ ∀ c ∈ s.toList, isTokenChar c = true

/-- A text of a member: visible characters and spaces, that are not cut off. -/
def TextFor (key s : String) : Prop :=
  (∀ c ∈ s.toList, isHeaderChar c = true) ∧
  (key = "error_description" → s.length ≤ maxErrorDescriptionLength)

def ValueFor (key : String) : PayloadValue → Prop
  | .undefined => False
  | .null => True
  | .text s => TextFor key s
  | .texts ss => 2 ≤ ss.length ∧ ∀ s ∈ ss, TextFor key s

/-- The members of a payload are named by tokens. -/
def PayloadFor (challenge : Challenge) : Prop :=
  ∀ m ∈ challenge.payload.entries, IsToken m.1 ∧ ValueFor m.1 m.2

structure Representable (challenges : List Challenge) : Prop where
  ne : challenges ≠ []
  first : ∀ challenge ∈ challenges.head?, IsToken challenge.scheme
  rest : ∀ challenge ∈ challenges.tail, challenge.scheme ∈ wellKnownSchemes
  payload : ∀ challenge ∈ challenges, PayloadFor challenge

def PayloadValue.toValue : PayloadValue → Value
  | .undefined => Value.undefined
  | .null => Value.null
  | .text s => str s
  | .texts ss => arr (ss.map str)

/-- The same members, in whatever order. -/
def SameMembers (members : List (String × Value)) (challenge : Challenge) : Prop :=
  ∀ key, members.lookup key = (challenge.payload.get key).map PayloadValue.toValue

def IsReadAs (parsed : ParsedChallenge) (challenge : Challenge) : Prop :=
  parsed.scheme = challenge.scheme ∧ SameMembers parsed.payload challenge

/-! ## Assignments -/

namespace ParsedPayload

/-- What a parameter makes of the member that it names. -/
def memberStep (key : String) (member : Option Value) (newValue : Option (List Char)) :
    Option Value :=
  let payloadValue := member.getD (inherited key)
  match newValue with
  | some newValue => some (appended payloadValue (sanitize newValue))
  | none => if payloadValue.truthy then member else some null

theorem lookup_write_of_ne (payload : ParsedPayload) {key k : String} (h : k ≠ key)
    (value : Value) :
    (payload.write key value).members.lookup k = payload.members.lookup k := by
  unfold write
  split_ifs
  · split <;> rfl
  · exact (lookup_insert key k value _).trans (if_neg h)

theorem lookup_assign_of_ne (payload : ParsedPayload) {m : String × Option (List Char)}
    {key : String} (h : key ≠ m.1) :
    (payload.assign m).members.lookup key = payload.members.lookup key := by
  unfold assign
  dsimp only
  split
  · exact lookup_write_of_ne payload h _
  · split_ifs
    · rfl
    · exact lookup_write_of_ne payload h _

/-- A member that no parameter names is left. -/
theorem lookup_foldl_of_not_mem {ms : List (String × Option (List Char))} {key : String}
    (h : ∀ m ∈ ms, m.1 ≠ key) (payload : ParsedPayload) :
    (ms.foldl assign payload).members.lookup key = payload.members.lookup key := by
  induction ms generalizing payload with
  | nil => rfl
  | cons m ms ih =>
    obtain ⟨hm, hms⟩ := List.forall_mem_cons.mp h
    exact (ih hms _).trans (payload.lookup_assign_of_ne (Ne.symm hm))

/-- `__proto__` is never an own member. -/
theorem lookup_proto (ms : List (String × Option (List Char))) (payload : ParsedPayload) :
    (ms.foldl assign payload).members.lookup "__proto__" = payload.members.lookup "__proto__" := by
  induction ms generalizing payload with
  | nil => rfl
  | cons m ms ih =>
    refine (ih _).trans ?_
    by_cases hm : "__proto__" = m.1
    · have hwrite : ∀ value, (payload.write m.1 value).members = payload.members := by
        intro value
        unfold write
        rw [if_pos hm.symm]
        cases value <;> rfl
      unfold assign
      dsimp only
      split
      · rw [hwrite]
      · split_ifs
        · rfl
        · rw [hwrite]
    · exact payload.lookup_assign_of_ne hm

theorem write_of_ne (payload : ParsedPayload) {key : String} (h : key ≠ "__proto__")
    (value : Value) :
    payload.write key value = { payload with members := insert key value payload.members } :=
  if_neg h

theorem assign_of_ne {payload : ParsedPayload} (hp : payload.prototype = none)
    {m : String × Option (List Char)} (h : m.1 ≠ "__proto__") :
    (payload.assign m).prototype = none ∧
      (payload.assign m).members.lookup m.1 = memberStep m.1 (payload.members.lookup m.1) m.2 := by
  have hread : payload.read m.1 = (payload.members.lookup m.1).getD (inherited m.1) := by
    rw [read, hp]
    cases payload.members.lookup m.1 <;> rfl
  have hinsert : ∀ value, (payload.write m.1 value).prototype = none ∧
      (payload.write m.1 value).members.lookup m.1 = some value := by
    intro value
    rw [payload.write_of_ne h]
    exact ⟨hp, (lookup_insert m.1 m.1 value _).trans (if_pos rfl)⟩
  unfold assign memberStep
  dsimp only
  rw [hread]
  cases m.2 with
  | some newValue => exact hinsert _
  | none =>
    dsimp only
    split_ifs
    · exact ⟨hp, rfl⟩
    · exact hinsert _

/-- A member is what the parameters that name it make of it. -/
theorem lookup_foldl {ms : List (String × Option (List Char))} (h : ∀ m ∈ ms, m.1 ≠ "__proto__")
    {payload : ParsedPayload} (hp : payload.prototype = none) (key : String) :
    (ms.foldl assign payload).members.lookup key =
      ((ms.filter (·.1 = key)).map Prod.snd).foldl (memberStep key)
        (payload.members.lookup key) := by
  induction ms generalizing payload with
  | nil => rfl
  | cons m ms ih =>
    obtain ⟨hm, hms⟩ := List.forall_mem_cons.mp h
    obtain ⟨hprototype, hlookup⟩ := assign_of_ne hp hm
    rw [List.foldl_cons, ih hms hprototype]
    by_cases hkey : m.1 = key
    · subst hkey
      rw [List.filter_cons_of_pos (by simp), List.map_cons, List.foldl_cons, hlookup]
    · rw [List.filter_cons_of_neg (by simp [hkey]), payload.lookup_assign_of_ne (Ne.symm hkey)]

/-! ## The strings of a payload -/

/-- A value of an array of texts: a text, or a value that was inherited. -/
def Flat (P : String → Prop) : Value → Prop
  | str s => P s
  | arr _ | obj _ => False
  | _ => True

/-- The texts of a member. -/
def Strings (P : String → Prop) : Value → Prop
  | arr items => ∀ x ∈ items, Flat P x
  | v => Flat P v

/-- The texts of all members, and of the array that was assigned to the prototype. -/
structure AllStrings (P : String → Prop) (payload : ParsedPayload) : Prop where
  member : ∀ key value, payload.members.lookup key = some value → Strings P value
  prototype : ∀ items, payload.prototype = some items → ∀ x ∈ items, Flat P x

variable {P : String → Prop}

theorem AllStrings.empty (P : String → Prop) : AllStrings P {} where
  member _ _ h := by cases h
  prototype _ h := by cases h

theorem Flat.strings {v : Value} (h : Flat P v) : Strings P v := by
  cases v with
  | arr items => exact h.elim
  | leaf l => exact h
  | obj members => exact h

theorem flat_inherited (key : String) : Flat P (inherited key) := by
  unfold inherited
  split_ifs <;> trivial

theorem AllStrings.read {payload : ParsedPayload} (h : AllStrings P payload) (key : String) :
    Strings P (payload.read key) := by
  unfold ParsedPayload.read
  split
  case h_1 value hlookup => exact h.member key value hlookup
  case h_2 => exact (flat_inherited key).strings
  case h_3 items _ hprototype =>
    split_ifs
    · exact h.prototype items hprototype
    · -- an element of the array, or what arrays inherit
      apply Flat.strings
      unfold property
      dsimp only
      split
      case h_1 i _ =>
        cases hi : items[i]? with
        | none => trivial
        | some x => exact h.prototype items hprototype x (List.mem_of_getElem? hi)
      case h_2 =>
        split_ifs
        all_goals first | trivial | exact flat_inherited key

theorem AllStrings.write {payload : ParsedPayload} (h : AllStrings P payload) (key : String)
    {value : Value} (hvalue : Strings P value) : AllStrings P (payload.write key value) := by
  unfold ParsedPayload.write
  split_ifs
  · split
    case h_1 items =>
      refine ⟨h.member, fun items' hitems => ?_⟩
      cases hitems
      exact hvalue
    case h_2 => exact h
  · refine ⟨fun k v hlookup => ?_, h.prototype⟩
    rw [show (insert key value payload.members).lookup k =
      _ from lookup_insert key k value _] at hlookup
    split_ifs at hlookup
    · cases hlookup
      exact hvalue
    · exact h.member k v hlookup

theorem Strings.appended {v : Value} (h : Strings P v) {s : String} (hs : P s) :
    Strings P (appended v s) := by
  unfold ParsedPayload.appended
  split_ifs
  · split
    case h_1 items =>
      intro x hx
      rcases List.mem_append.mp hx with hx | hx
      · exact h x hx
      · rw [List.mem_singleton.mp hx]
        exact hs
    case h_2 harr =>
      have hflat : Flat P v := by
        cases v with
        | arr items => exact absurd rfl (harr items)
        | leaf l => exact h
        | obj members => exact h
      intro x hx
      rcases List.mem_pair.mp hx with rfl | rfl
      · exact hflat
      · exact hs
  · exact hs

/-- The texts of the members are those of the parameters. -/
theorem AllStrings.foldl {ms : List (String × Option (List Char))}
    (h : ∀ m ∈ ms, ∀ newValue, m.2 = some newValue → P (sanitize newValue))
    {payload : ParsedPayload} (hp : AllStrings P payload) :
    AllStrings P (ms.foldl assign payload) := by
  induction ms generalizing payload with
  | nil => exact hp
  | cons m ms ih =>
    obtain ⟨hm, hms⟩ := List.forall_mem_cons.mp h
    apply ih hms
    unfold assign
    dsimp only
    split
    case h_1 newValue hnew => exact hp.write _ ((hp.read _).appended (hm newValue hnew))
    case h_2 =>
      split_ifs
      · exact hp
      · exact hp.write _ trivial

end ParsedPayload

open ParsedPayload

/-! ## Members -/

theorem toHeaderText_token {s : String} (h : IsToken s) : toHeaderText s.toList = s.toList :=
  toHeaderText_of_forall fun c hc => (isTokenChar.tokenChar (h.2 c hc)).header

theorem encodeText_eq {key s : String} (h : TextFor key s) :
    encodeText key s = escape s.toList := by
  unfold encodeText
  dsimp only
  rw [toHeaderText_of_forall h.1, if_neg]
  rintro ⟨rfl, hlt⟩
  exact absurd (h.2 rfl) (Nat.not_le.mpr hlt)

theorem sanitize_encodeText {key s : String} (h : TextFor key s) :
    sanitize ('"' :: (encodeText key s ++ ['"'])) = s := by
  rw [encodeText_eq h, sanitize_quoted, String.ofList_toList]

/-- What is matched of the parameters of a member. -/
def matchedValues (key : String) (value : PayloadValue) : List (Option (List Char)) :=
  (paramsOf key value).map fun p => (paramMatch p).2

/-- The member that they are read as. -/
def memberOf (key : String) (value : PayloadValue) : Option Value :=
  (matchedValues key value).foldl (memberStep key) none

/-- The value of a member that texts are appended to. -/
def appendTexts (start : Value) (member : Option Value) (ss : List String) : Option Value :=
  ss.foldl (fun member s => some (appended (member.getD start) s)) member

theorem foldl_texts {key : String} {ss : List String} (h : ∀ s ∈ ss, TextFor key s)
    (member : Option Value) :
    (matchedValues key (.texts ss)).foldl (memberStep key) member =
      appendTexts (inherited key) member ss := by
  induction ss generalizing member with
  | nil => rfl
  | cons s ss ih =>
    obtain ⟨hs, hss⟩ := List.forall_mem_cons.mp h
    have hstep : memberStep key member (some ('"' :: (encodeText key s ++ ['"']))) =
        some (appended (member.getD (inherited key)) s) := by
      rw [memberStep, sanitize_encodeText hs]
    have hvalues : matchedValues key (.texts (s :: ss)) =
        some ('"' :: (encodeText key s ++ ['"'])) :: matchedValues key (.texts ss) := rfl
    rw [hvalues, List.foldl_cons, hstep, ih hss]
    rfl

theorem appendTexts_arr (start : Value) (items : List Value) (ss : List String) :
    appendTexts start (some (arr items)) ss = some (arr (items ++ ss.map str)) := by
  induction ss generalizing items with
  | nil => rw [List.map_nil, List.append_nil]; rfl
  | cons s ss ih =>
    show appendTexts start (some (arr (items ++ [str s]))) ss = _
    rw [ih, List.append_assoc]
    rfl

/-- How many texts a value can hold: an empty one is replaced. -/
def held : Value → ℕ
  | arr items => items.length
  | str s => if s = "" then 0 else 1
  | _ => 0

theorem held_appended {v : Value} (hv : v = undefined ∨ (∃ s, v = str s) ∨ ∃ items, v = arr items)
    (s : String) :
    held (appended v s) ≤ held v + 1 ∧
    ((∃ t, appended v s = str t) ∨ ∃ items, appended v s = arr items) := by
  rcases hv with rfl | ⟨t, rfl⟩ | ⟨items, rfl⟩
  · refine ⟨?_, .inl ⟨s, rfl⟩⟩
    show (if s = "" then 0 else 1) ≤ 0 + 1
    split_ifs <;> omega
  · by_cases ht : t = ""
    · subst ht
      refine ⟨?_, .inl ⟨s, rfl⟩⟩
      show (if s = "" then 0 else 1) ≤ 0 + 1
      split_ifs <;> omega
    · have happended : appended (str t) s = arr [str t, str s] := by simp [appended, truthy, ht]
      rw [happended]
      refine ⟨?_, .inr ⟨_, rfl⟩⟩
      show 2 ≤ (if t = "" then 0 else 1) + 1
      rw [if_neg ht]
  · refine ⟨?_, .inr ⟨_, rfl⟩⟩
    show (items ++ [str s]).length ≤ _
    rw [List.length_append]
    exact le_rfl

theorem held_appendTexts {v : Value}
    (hv : v = undefined ∨ (∃ s, v = str s) ∨ ∃ items, v = arr items) (ss : List String)
    {w : Value} (h : appendTexts undefined (some v) ss = some w) : held w ≤ held v + ss.length := by
  induction ss generalizing v with
  | nil =>
    cases h
    exact le_rfl
  | cons s ss ih =>
    obtain ⟨hle, hshape⟩ := held_appended hv s
    have htail := ih (.inr hshape) h
    rw [List.length_cons]
    omega

/-- The first text is not lost. -/
def FirstKept : PayloadValue → Prop
  | .text s => s ≠ ""
  | .texts ss => ss.head? ≠ some ""
  | _ => True

theorem inherited_of_ne {key : String} (h : key ≠ "__proto__") :
    inherited key = undefined ∨ inherited key = leaf (.builtin key) := by
  unfold inherited
  rw [if_neg h]
  split_ifs
  · exact .inr rfl
  · exact .inl rfl

theorem appendTexts_undefined {ss : List String} (hlen : 2 ≤ ss.length) :
    appendTexts undefined none ss = some (arr (ss.map str)) ↔ ss.head? ≠ some "" := by
  obtain ⟨s, t, ss, rfl⟩ : ∃ s t ss', ss = s :: t :: ss' := by
    match ss, hlen with
    | s :: t :: ss', _ => exact ⟨s, t, ss', rfl⟩
  have hfirst : appendTexts undefined none (s :: t :: ss) = appendTexts undefined (some (str s))
      (t :: ss) := rfl
  rw [hfirst, List.head?_cons]
  by_cases hs : s = ""
  · -- the empty text is replaced, and one text less is held in the end
    refine iff_of_false (fun h => ?_) (fun h => h (congrArg some hs))
    have hheld := held_appendTexts (.inr (.inl ⟨s, rfl⟩)) (t :: ss) h
    rw [held, held, if_pos hs, List.length_map, List.length_cons] at hheld
    omega
  · refine iff_of_true ?_ (fun h => hs (Option.some.inj h))
    have hsecond : appendTexts undefined (some (str s)) (t :: ss) =
        appendTexts undefined (some (arr [str s, str t])) ss := by
      simp [appendTexts, appended, truthy, hs]
    rw [hsecond, appendTexts_arr]
    rfl

theorem memberOf_text {key s : String} (h : TextFor key s) (hs : s ≠ "") :
    memberOf key (.text s) = some (appended (inherited key) s) := by
  have hvalues : matchedValues key (.text s) = matchedValues key (.texts [s]) := by
    rw [matchedValues, paramsOf, if_neg hs]
    rfl
  rw [memberOf, hvalues, foldl_texts (List.forall_mem_singleton.mpr h)]
  rfl

theorem memberOf_none {key : String} {value : PayloadValue} (h : matchedValues key value = [none]) :
    memberOf key value = if (inherited key).truthy then none else some null := by
  rw [memberOf, h]
  rfl

/-- A member is read as the one that was encoded where its name is not inherited and its first text
is kept. -/
theorem memberOf_iff {key : String} {value : PayloadValue} (h : ValueFor key value)
    (hproto : key ≠ "__proto__") :
    memberOf key value = some value.toValue ↔ inherited key = undefined ∧ FirstKept value := by
  cases value with
  | undefined => exact h.elim
  | null =>
    rw [memberOf_none rfl, and_iff_left (show FirstKept .null from trivial)]
    rcases inherited_of_ne hproto with hin | hin <;> rw [hin]
    · exact iff_of_true rfl rfl
    · exact iff_of_false nofun nofun
  | text s =>
    by_cases hs : s = ""
    · subst hs
      refine iff_of_false (fun hmember => ?_) fun hkept => hkept.2 rfl
      rw [memberOf_none rfl] at hmember
      split_ifs at hmember
      cases hmember
    · rw [memberOf_text h hs, and_iff_left (show FirstKept (.text s) from hs)]
      rcases inherited_of_ne hproto with hin | hin <;> rw [hin]
      · exact iff_of_true rfl rfl
      · exact iff_of_false nofun nofun
  | texts ss =>
    rw [memberOf, foldl_texts h.2]
    rcases inherited_of_ne hproto with hin | hin <;> rw [hin]
    · exact (appendTexts_undefined h.1).trans (and_iff_right rfl).symm
    · -- the function that is inherited stays the first element
      refine iff_of_false (fun hmember => ?_) nofun
      obtain ⟨s, ss, rfl⟩ :=
        List.exists_cons_of_ne_nil (l := ss) (by rintro rfl; exact absurd h.1 (by decide))
      have hfirst : appendTexts (leaf (.builtin key)) none (s :: ss) =
          appendTexts (leaf (.builtin key)) (some (arr [leaf (.builtin key), str s])) ss := rfl
      rw [hfirst, appendTexts_arr] at hmember
      cases hmember

/-! ## Payloads -/

theorem filter_flatMap_params {entries : List (String × PayloadValue)} (hn : (keys entries).Nodup)
    (htoken : ∀ m ∈ entries, IsToken m.1) (key : String) :
    ((((entries.flatMap fun m => paramsOf m.1 m.2).map paramMatch).filter
      (·.1 = key)).map Prod.snd) =
      ((entries.lookup key).map (matchedValues key)).getD [] := by
  have hname : ∀ {k : String} {v : PayloadValue}, IsToken k →
      ∀ p ∈ paramsOf k v, (paramMatch p).1 = k := by
    intro k v hk p hp
    rw [paramMatch, (mem_paramsOf hp).1, toHeaderText_token hk, String.ofList_toList]
  induction entries with
  | nil => rfl
  | cons m entries ih =>
    obtain ⟨hm, hrest⟩ := List.forall_mem_cons.mp htoken
    obtain ⟨hnot, hn⟩ := List.nodup_cons.mp hn
    rw [List.flatMap_cons, List.map_append, List.filter_append, List.map_append, ih hn hrest]
    by_cases hkey : m.1 = key
    · subst hkey
      have hall : ((paramsOf m.1 m.2).map paramMatch).filter (fun x => x.1 = m.1) =
          (paramsOf m.1 m.2).map paramMatch :=
        List.filter_eq_self.mpr (List.forall_mem_map.mpr fun p hp => decide_eq_true (hname hm p hp))
      rw [hall, lookup_eq_none_iff.mpr hnot, lookup_cons_of_eq m.1 m.2 entries, List.map_map,
        Option.map_none, Option.getD_none, List.append_nil]
      rfl
    · have hnone : ((paramsOf m.1 m.2).map paramMatch).filter (fun x => x.1 = key) = [] :=
        List.filter_eq_nil_iff.mpr (List.forall_mem_map.mpr fun p hp => by
          rw [hname hm p hp]
          simpa using hkey)
      rw [hnone, lookup_cons_of_ne hkey]
      rfl

/-- A payload is read as the one that was encoded where each of its members is. -/
theorem sameMembers_iff {challenge : Challenge} (h : PayloadFor challenge) {scheme : String}
    {text : List Char} (hmatches : bodyMatches text = challenge.params.map paramMatch) :
    SameMembers (parsePayload scheme text).payload challenge ↔
      ∀ m ∈ challenge.payload.entries, inherited m.1 = undefined ∧ FirstKept m.2 := by
  have hnodup := challenge.payload.nodup
  have htoken : ∀ m ∈ challenge.payload.entries, IsToken m.1 := fun m hm => (h m hm).1
  rw [parsePayload, hmatches]
  by_cases hproto : "__proto__" ∈ keys challenge.payload.entries
  · obtain ⟨value, hvalue⟩ := lookup_isSome_iff.mpr hproto |> Option.isSome_iff_exists.mp
    refine iff_of_false (fun hsame => ?_) fun hall => ?_
    · have hkey := hsame "__proto__"
      dsimp only at hkey
      rw [lookup_proto, OrderedMap.get, hvalue] at hkey
      cases hkey
    · have hin := (hall _ (mem_of_lookup hvalue)).1
      cases hin
  · have hne : ∀ m ∈ challenge.payload.entries, m.1 ≠ "__proto__" := fun m hm heq =>
      hproto (heq ▸ mem_keys_of_mem hm)
    have hmatch : ∀ m ∈ challenge.params.map paramMatch, m.1 ≠ "__proto__" := by
      refine List.forall_mem_map.mpr fun p hp => ?_
      obtain ⟨m, hm, hp⟩ := mem_params.mp hp
      rw [paramMatch, (mem_paramsOf hp).1, toHeaderText_token (htoken m hm), String.ofList_toList]
      exact hne m hm
    have hlookup : ∀ key,
        ((challenge.params.map paramMatch).foldl ParsedPayload.assign {}).members.lookup key =
        (challenge.payload.get key).bind (memberOf key) := by
      intro key
      rw [lookup_foldl hmatch rfl, Challenge.params, filter_flatMap_params hnodup htoken key,
        OrderedMap.get]
      cases challenge.payload.entries.lookup key <;> rfl
    constructor
    · intro hsame m hm
      have hkey := hsame m.1
      dsimp only at hkey
      rw [hlookup, OrderedMap.get_eq_some.mpr hm] at hkey
      exact (memberOf_iff (h m hm).2 (hne m hm)).mp hkey
    · intro hall key
      dsimp only
      rw [hlookup]
      cases hget : challenge.payload.get key with
      | none => rfl
      | some value =>
        have hm := OrderedMap.get_eq_some.mp hget
        exact (memberOf_iff (h _ hm).2 (hne _ hm)).mpr (hall _ hm)

end IdentityCommon.Openid4vcUtils
