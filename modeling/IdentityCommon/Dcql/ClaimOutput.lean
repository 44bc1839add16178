import IdentityCommon.Dcql.Projection

/-!
# What a claim discloses

The value that the parser of a claim returns copies the part of the claims that the path of
the claim matches.

## Main definitions

- `Matched` — a position that a path matches
- `Projects` — a value discloses a part of another one along given positions

## Main results

- `output_copy` — the output is a copy; without garbage unless the path is vacuous
- `output_projects` — it discloses the matched positions, what is above and what is below them
- `output_garbage` — the output of a vacuous path has garbage
-/

namespace IdentityCommon.Dcql

open Ecma AssocList Value

/-- The path matches the position, with an allowed value. -/
def Matched (values : Option (List ClaimValue)) (path : List PathElement) (v : Value)
    (p : List Key) : Prop :=
  ∃ w, (p, w) ∈ select path v ∧ isPresent w ∧ isAllowed values w

theorem selects_iff_matched {values : Option (List ClaimValue)}
    {path : List PathElement} {v : Value} :
    Selects values path v ↔ ∃ p, Matched values path v p := by
  simp only [Selects, Matched, Prod.exists]

section Matched

variable {values : Option (List ClaimValue)} {rest : List PathElement} {p : List Key}

theorem matched_nil {v : Value} : Matched values [] v p ↔ p = [] ∧ isPresent v ∧
    isAllowed values v := by
  simp only [Matched, select, List.mem_singleton, Prod.mk.injEq]
  constructor
  · rintro ⟨w, ⟨rfl, rfl⟩, h⟩
    exact ⟨rfl, h⟩
  · rintro ⟨rfl, h⟩
    exact ⟨v, ⟨rfl, rfl⟩, h⟩

theorem matched_name {k : String} {members : List (String × Value)} {x : Value}
    (h : members.lookup k = some x) : Matched values (.name k :: rest) (.obj members) p ↔
      ∃ p', p = .name k :: p' ∧ Matched values rest x p' := by
  simp only [Matched, mem_select_name h]
  constructor
  · rintro ⟨w, ⟨p', hm, rfl⟩, ha⟩
    exact ⟨p', rfl, w, hm, ha⟩
  · rintro ⟨p', rfl, w, hm, ha⟩
    exact ⟨w, ⟨p', hm, rfl⟩, ha⟩

theorem matched_index {n : ℕ} {items : List Value} {x : Value} (h : items[n]? = some x) :
    Matched values (.index n :: rest) (.arr items) p ↔
      ∃ p', p = .index n :: p' ∧ Matched values rest x p' := by
  simp only [Matched, mem_select_index h]
  constructor
  · rintro ⟨w, ⟨p', hm, rfl⟩, ha⟩
    exact ⟨p', rfl, w, hm, ha⟩
  · rintro ⟨p', rfl, w, hm, ha⟩
    exact ⟨w, ⟨p', hm, rfl⟩, ha⟩

theorem matched_null {items : List Value} : Matched values (.null :: rest) (.arr items) p ↔
    ∃ n x p', items[n]? = some x ∧ p = .index n :: p' ∧ Matched values rest x p' := by
  simp only [Matched, mem_select_null]
  constructor
  · rintro ⟨w, ⟨n, x, hx, p', hm, rfl⟩, ha⟩
    exact ⟨n, x, p', hx, rfl, w, hm, ha⟩
  · rintro ⟨n, x, p', hx, rfl, w, hm, ha⟩
    exact ⟨w, ⟨n, x, hx, p', hm, rfl⟩, ha⟩

/-- A matched position is one of the value. -/
theorem discloses_of_matched {path : List PathElement} {v : Value} (h : Matched values path v p) :
    Discloses v p := by
  induction path generalizing v p with
  | nil =>
    obtain ⟨rfl, hp, -⟩ := matched_nil.mp h
    exact discloses_nil.mpr hp
  | cons e rest ih =>
    have hstep : ∀ {k x p'}, v.child k = some x → Matched values rest x p' →
        Discloses v (k :: p') := by
      intro k x p' hx hm
      obtain ⟨w, hw, hp⟩ := ih hm
      exact ⟨w, by rw [follow_cons, hx, Option.bind_some, hw], hp⟩
    obtain ⟨w, hsel, hw⟩ := h
    match e, v, hsel with
    | .name k, .obj members, hsel =>
      cases hk : members.lookup k with
      | none => simp [select, hk] at hsel
      | some x =>
        obtain ⟨p', rfl, hm⟩ := (matched_name hk).mp ⟨w, hsel, hw⟩
        exact hstep hk hm
    | .index n, .arr items, hsel =>
      cases hn : items[n]? with
      | none => simp [select, hn] at hsel
      | some x =>
        obtain ⟨p', rfl, hm⟩ := (matched_index hn).mp ⟨w, hsel, hw⟩
        exact hstep (k := .index n) hn hm
    | .null, .arr items, hsel =>
      obtain ⟨n, x, p', hn, rfl, hm⟩ := matched_null.mp ⟨w, hsel, hw⟩
      exact hstep (k := .index n) hn hm

end Matched

/-! ## Successful parses -/

section Success

variable {zod : Zod} {q : W3cAndSdJwtVc} {presentation : Bool} {index : ℕ}
  {rest : List PathElement} {v : Value} {payload : Payload}

theorem claim_ok {path : List PathElement} {values : Option (List ClaimValue)}
    (h : getClaimParser path values v = .ok payload) (hs : payload.success) :
    payload.value = v ∧ isPresent v ∧ isAllowed values v := by
  unfold getClaimParser at h
  split at h
  · cases h
    cases hs
  · split at h
    · obtain ⟨received, -, h⟩ := Except.bind_eq_ok.mp h
      cases h
      cases hs
    · cases h
      simp_all

theorem name_ok {k : String}
    (h : getJsonClaimParser zod q presentation index (.name k :: rest) v = .ok payload)
    (hs : payload.success) : v.isObject ∧ ∃ r : Payload,
      getJsonClaimParser zod q presentation (index + 1) rest (v.get k) = .ok r ∧ r.success ∧
      payload.value = .obj [(k, r.value)] := by
  rw [getJsonClaimParser, zClaimObject] at h
  split at h
  case isTrue ho =>
    obtain ⟨r, hr, h⟩ := Except.bind_eq_ok.mp h
    cases h
    refine ⟨ho, r, hr, ?_, rfl⟩
    simpa [Payload.success] using hs
  case isFalse =>
    cases h
    cases hs

theorem index_ok {n : ℕ}
    (h : getJsonClaimParser zod q false index (.index n :: rest) v = .ok payload)
    (hs : payload.success) : ∃ items, v = .arr items ∧ ∃ r : Payload,
      getJsonClaimParser zod q false (index + 1) rest (items[n]?.getD .undefined) = .ok r ∧
      r.success ∧ payload.value =
        .arr ((items.take n).map (fun _ => .notDisclosed) ++ [r.value]) := by
  rw [getJsonClaimParser] at h
  simp only [Bool.false_eq_true, if_false] at h
  cases v with
  | arr items =>
    obtain ⟨r, hr, h⟩ := Except.bind_eq_ok.mp h
    by_cases hrs : r.success
    · rw [if_pos hrs] at h
      cases h
      exact ⟨items, rfl, r, hr, hrs, rfl⟩
    · rw [if_neg hrs] at h
      cases h
      have hne := Payload.issues_ne_nil (p := r) (by simpa using hrs)
      simp [Payload.success, hne] at hs
  | leaf l =>
    cases h
    cases hs
  | obj members =>
    cases h
    cases hs

theorem presentation_index_ok {n : ℕ}
    (h : getJsonClaimParser zod q true index (.index n :: rest) v = .ok payload)
    (hs : payload.success) : ∃ items, v = .arr items ∧ payload.value = v := by
  rw [getJsonClaimParser] at h
  simp only [if_true] at h
  cases v with
  | arr items =>
    obtain ⟨r, -, h⟩ := Except.bind_eq_ok.mp h
    match r with
    | none =>
      cases h
      exact ⟨items, rfl, rfl⟩
    | some [] =>
      cases h
      cases hs
    | some (issue :: _) =>
      cases h
      cases hs
  | leaf l =>
    rw [zAnyItem] at h
    · split at h
      · cases h
      · cases h
        cases hs
    · exact fun _ h => by cases h
  | obj members =>
    rw [zAnyItem] at h
    · split at h
      · cases h
      · cases h
        cases hs
    · exact fun _ h => by cases h

theorem null_ok
    (h : getJsonClaimParser zod q presentation index (.null :: rest) v = .ok payload)
    (hs : payload.success) : ∃ items mapped, v = .arr items ∧
      items.mapM (getJsonClaimParser zod q presentation (index + 1) rest) = .ok mapped ∧
      (items = [] ∧ payload.value = NEVER ∨ mapped.any Payload.success ∧ payload.value =
        .arr (mapped.map fun parsed => if parsed.success then parsed.value
          else .notDisclosed)) := by
  rw [getJsonClaimParser] at h
  cases v with
  | arr items =>
    obtain ⟨mapped, hm, h⟩ := Except.bind_eq_ok.mp h
    refine ⟨items, mapped, rfl, hm, ?_⟩
    split at h
    case isTrue hall =>
      cases h
      refine .inl ⟨?_, rfl⟩
      -- an element that failed would have left an issue
      cases items with
      | nil => rfl
      | cons x items =>
        cases Except.mapM_eq_ok.mp hm with
        | @cons _ parsed _ _ hx _ =>
          have hne := Payload.issues_ne_nil (p := parsed)
            (by simpa using List.all_eq_true.mp hall parsed (by simp))
          simp [Payload.success, hne] at hs
    case isFalse hall =>
      cases h
      refine .inr ⟨?_, rfl⟩
      simpa [List.not_any_eq_all_not] using hall
  | leaf l =>
    cases h
    cases hs
  | obj members =>
    cases h
    cases hs

end Success

/-! ## The output is a copy -/

theorem entry_singleton {k : Key} {key : String} {a : Value} (h : isPresent a) :
    entry k (.obj [(key, a)]) = if k = .name key then some a else none := by
  cases k with
  | name s =>
    by_cases hs : s = key
    · subst hs
      rw [entry, child_name_obj, lookup_cons_of_eq, if_pos rfl, Option.filter_some_pos h]
    · rw [entry, child_name_obj, lookup_cons_of_ne (Ne.symm hs), if_neg (by simpa using hs)]
      rfl
  | index n => simp [entry]

theorem entry_padded {k : Key} {items : List Value} {n : ℕ} {a : Value} (hn : n < items.length)
    (h : isPresent a) :
    entry k (.arr ((items.take n).map (fun _ => .notDisclosed) ++ [a])) =
      if k = .index n then some a else none := by
  cases k with
  | name s => simp [entry]
  | index m =>
    have hl : ((items.take n).map fun _ => Value.notDisclosed).length = n := by
      simp only [List.length_map, List.length_take]
      omega
    simp only [entry, child_index_arr, Key.index.injEq]
    obtain hm | rfl | hm := Nat.lt_trichotomy m n
    · rw [List.getElem?_append_left (by omega), if_neg (by omega), List.getElem?_map]
      cases (items.take n)[m]? <;> rfl
    · rw [List.getElem?_append_right (by omega), hl, Nat.sub_self, if_pos rfl]
      exact Option.filter_some_pos h
    · rw [List.getElem?_eq_none
        (by simp only [List.length_append, hl, List.length_singleton]; omega), if_neg (by omega)]
      rfl

/-! ## Projections -/

/-- `out` discloses what `v` has along the positions of `M`: these positions, what is above them and
what is below. -/
def Projects (M : List Key → Prop) (v out : Value) : Prop :=
  ∀ p, Discloses out p ↔ Discloses v p ∧ ∃ m, M m ∧ (p <+: m ∨ m <+: p)

/-- A container projects along positions below it, entry by entry. -/
theorem Projects.node {M : List Key → Prop} {v out : Value} (hout : isPresent out)
    (hv : isPresent v) (hnil : ¬ M []) (hne : ∃ m, M m)
    (h : ∀ k, (entry k out = none ∧ ∀ m, ¬ M (k :: m)) ∨
      ∃ a x, entry k out = some a ∧ entry k v = some x ∧ Projects (fun m => M (k :: m)) x a) :
    Projects M v out := by
  intro p
  cases p with
  | nil =>
    simp only [discloses_nil, hout, hv, true_and, true_iff]
    exact hne.imp fun m hm => ⟨hm, .inl List.nil_prefix⟩
  | cons k p =>
    have hM : (∃ m, M m ∧ (k :: p <+: m ∨ m <+: k :: p)) ↔
        ∃ m, M (k :: m) ∧ (p <+: m ∨ m <+: p) := by
      constructor
      · rintro ⟨m, hm, hp⟩
        cases m with
        | nil => exact absurd hm hnil
        | cons k' m =>
          obtain ⟨hk, hp⟩ : k = k' ∧ (p <+: m ∨ m <+: p) := by
            obtain hp | hp := hp
            · exact (List.cons_prefix_cons.mp hp).imp id .inl
            · exact ⟨(List.cons_prefix_cons.mp hp).1.symm, .inr (List.cons_prefix_cons.mp hp).2⟩
          exact ⟨m, hk ▸ hm, hp⟩
      · rintro ⟨m, hm, hp⟩
        exact ⟨k :: m, hm, hp.imp (fun h => List.cons_prefix_cons.mpr ⟨rfl, h⟩)
          fun h => List.cons_prefix_cons.mpr ⟨rfl, h⟩⟩
    rw [hM, discloses_cons, discloses_cons]
    obtain ⟨hk, hm⟩ | ⟨a, x, ha, hx, hp⟩ := h k
    · simp [hk, hm]
    · simp only [ha, hx, Option.some.injEq, exists_eq_left']
      exact hp p

/-- A container with a single part projects along the positions of that part. -/
theorem Projects.single {M M' : List Key → Prop} {v out x a : Value} {k : Key}
    (hout : isPresent out) (hv : isPresent v) (hM : ∀ m, M m ↔ ∃ m', m = k :: m' ∧ M' m')
    (hne : ∃ m, M m) (hentry : ∀ k', entry k' out = if k' = k then some a else none)
    (hx : entry k v = some x) (h : Projects M' x a) : Projects M v out := by
  refine .node hout hv (by simp [hM]) hne fun k' => ?_
  by_cases hkey : k' = k
  · subst hkey
    exact .inr ⟨a, x, by rw [hentry, if_pos rfl], hx, by simpa [hM] using h⟩
  · exact .inl ⟨by rw [hentry, if_neg hkey], by simp [hM, hkey]⟩

section Output

variable {zod : Zod} {q : W3cAndSdJwtVc}

theorem success_eq {presentation : Bool} {index : ℕ} {path : List PathElement} {v : Value}
    {payload : Payload} (h : getJsonClaimParser zod q presentation index path v = .ok payload) :
    payload.success = accepts presentation q.values path v :=
  (getJsonClaimParser_spec zod q presentation path index).success_eq h

/-- A path over a member that is not there only goes on to inherited ones. -/
theorem reachesVacuous_of_accepts {presentation : Bool}
    {values : Option (List ClaimValue)} {k : String} {rest : List PathElement} {v : Value}
    (ho : v.isObject) (hk : v.child (.name k) = none)
    (h : accepts presentation values rest (v.get k)) :
    reachesVacuous values (.name k :: rest) v := by
  cases v with
  | arr items => cases ho
  | obj members =>
    have hk : members.lookup k = none := hk
    rw [get_obj_of_none hk, accepts_inherited] at h
    simpa [reachesVacuous, hk] using h
  | leaf l =>
    cases l with
    | objectPrototype =>
      rw [accepts_get_objectPrototype] at h
      exact h
    | host text =>
      have hg : (leaf (.host text)).get k = inherited k := rfl
      rw [hg, accepts_inherited] at h
      exact h
    | undefined | null | bool | num | str | notDisclosed | builtin => cases ho

/-- The element at an index whose parse succeeds is there. -/
theorem getElem?_of_success {presentation : Bool} {index n : ℕ} {path : List PathElement}
    {items : List Value} {r : Payload}
    (h : getJsonClaimParser zod q presentation index path (items[n]?.getD .undefined) = .ok r)
    (hs : r.success) : ∃ x, items[n]? = some x := by
  cases hn : items[n]? with
  | some x => exact ⟨x, rfl⟩
  | none =>
    rw [success_eq h, hn, Option.getD_none, accepts_leaf rfl] at hs
    cases hs

theorem output_present {presentation : Bool} {index : ℕ} {path : List PathElement} {v : Value}
    {payload : Payload} (h : getJsonClaimParser zod q presentation index path v = .ok payload)
    (hs : payload.success) : isPresent payload.value := by
  match path, presentation with
  | [], _ =>
    obtain ⟨hv, hp, -⟩ := claim_ok h hs
    rwa [hv]
  | .name k :: rest, _ =>
    obtain ⟨-, r, -, -, hval⟩ := name_ok h hs
    rw [hval]
    rfl
  | .index n :: rest, true =>
    obtain ⟨items, rfl, hval⟩ := presentation_index_ok h hs
    rw [hval]
    rfl
  | .index n :: rest, false =>
    obtain ⟨items, -, r, -, -, hval⟩ := index_ok h hs
    rw [hval]
    rfl
  | .null :: rest, _ =>
    obtain ⟨items, mapped, -, -, ⟨-, hval⟩ | ⟨-, hval⟩⟩ := null_ok h hs
    · rw [hval]
      rfl
    · rw [hval]
      rfl

theorem distinct_inherited (k : String) : (inherited k).Distinct := by
  unfold inherited
  split
  · exact .leaf _
  · split <;> exact .leaf _

theorem distinct_get {v : Value} (h : v.Distinct) (k : String) : (v.get k).Distinct := by
  cases v with
  | obj members =>
    cases hk : members.lookup k with
    | some x =>
      rw [get_obj_of_some hk]
      exact h.child (k := .name k) hk
    | none =>
      rw [get_obj_of_none hk]
      exact distinct_inherited k
  | arr items => exact .leaf _
  | leaf l =>
    cases l with
    | objectPrototype =>
      simp only [Value.get]
      split
      · exact .leaf _
      · exact distinct_inherited k
    | host text => exact distinct_inherited k
    | undefined | null | bool | num | str | notDisclosed | builtin => exact .leaf _

theorem distinct_singleton {k : String} {v : Value} (h : v.Distinct) : (obj [(k, v)]).Distinct :=
  .obj (List.nodup_singleton _) (by simpa using h)

/-- The names of the members of an output are distinct. -/
theorem output_distinct {presentation : Bool} {path : List PathElement} :
    ∀ {index : ℕ} {v : Value} {payload : Payload}, v.Distinct →
      getJsonClaimParser zod q presentation index path v = .ok payload → payload.success →
      payload.value.Distinct := by
  induction path with
  | nil =>
    intro index v payload hd h hs
    obtain ⟨hv, -, -⟩ := claim_ok h hs
    rwa [hv]
  | cons e rest ih =>
    intro index v payload hd h hs
    cases e with
    | name k =>
      obtain ⟨-, r, hr, hrs, hval⟩ := name_ok h hs
      rw [hval]
      exact distinct_singleton (ih (distinct_get hd k) hr hrs)
    | index n =>
      cases presentation with
      | true =>
        obtain ⟨items, -, hval⟩ := presentation_index_ok h hs
        rwa [hval]
      | false =>
        obtain ⟨items, rfl, r, hr, hrs, hval⟩ := index_ok h hs
        obtain ⟨x, hx⟩ := getElem?_of_success hr hrs
        rw [hx] at hr
        rw [hval]
        refine .arr fun y hy => ?_
        obtain hy | hy := List.mem_append.mp hy
        · obtain ⟨z, -, rfl⟩ := List.mem_map.mp hy
          exact .leaf _
        · obtain rfl := List.mem_singleton.mp hy
          exact ih (hd.child (k := .index n) hx) hr hrs
    | null =>
      obtain ⟨items, mapped, rfl, hm, ⟨-, hval⟩ | ⟨-, hval⟩⟩ := null_ok h hs
      · rw [hval]
        exact distinct_singleton (.leaf _)
      · rw [hval]
        refine .arr fun y hy => ?_
        obtain ⟨r, hr, rfl⟩ := List.mem_map.mp hy
        by_cases hrs : r.success
        · rw [if_pos hrs]
          obtain ⟨n, hn⟩ := List.mem_iff_getElem?.mp hr
          obtain ⟨x, hx, hxr⟩ := (Except.getElem?_mapM hm).mp hn
          exact ih (hd.child (k := .index n) hx) hxr hrs
        · rw [if_neg hrs]
          exact .leaf _

/-- One element of the output for a null component. -/
theorem entry_mapped {presentation : Bool} {index n : ℕ} {rest : List PathElement}
    {items : List Value} {mapped : List Payload} {a : Value}
    (h : items.mapM (getJsonClaimParser zod q presentation index rest) = .ok mapped) :
    entry (.index n)
        (.arr (mapped.map fun parsed => if parsed.success then parsed.value else .notDisclosed)) =
      some a ↔ ∃ x r, items[n]? = some x ∧
        getJsonClaimParser zod q presentation index rest x = .ok r ∧ r.success ∧ r.value = a := by
  rw [entry, child_index_arr, List.getElem?_map, Option.filter_eq_some_iff, Option.map_eq_some_iff]
  constructor
  · rintro ⟨⟨r, hr, ha⟩, hpa⟩
    obtain ⟨x, hx, hxr⟩ := (Except.getElem?_mapM h).mp hr
    by_cases hs : r.success
    · exact ⟨x, r, hx, hxr, hs, by simpa [hs] using ha⟩
    · rw [if_neg hs] at ha
      cases ha
      cases hpa
  · rintro ⟨x, r, hx, hxr, hs, rfl⟩
    exact ⟨⟨r, (Except.getElem?_mapM h).mpr ⟨x, hx, hxr⟩, if_pos hs⟩,
      output_present hxr hs⟩

theorem entry_mapped_eq_none {presentation : Bool} {index n : ℕ} {rest : List PathElement}
    {items : List Value} {mapped : List Payload}
    (h : items.mapM (getJsonClaimParser zod q presentation index rest) = .ok mapped) :
    entry (.index n)
        (.arr (mapped.map fun parsed => if parsed.success then parsed.value else .notDisclosed)) =
      none ↔ ∀ x r, items[n]? = some x →
        getJsonClaimParser zod q presentation index rest x = .ok r → ¬ r.success := by
  rw [Option.eq_none_iff_forall_ne_some]
  constructor
  · exact fun hno x r hx hr hrs => hno _ ((entry_mapped h).mpr ⟨x, r, hx, hr, hrs, rfl⟩)
  · intro hno a ha
    obtain ⟨x, r, hx, hr, hrs, -⟩ := (entry_mapped h).mp ha
    exact hno x r hx hr hrs

/-- The slack is what the output for a path needs: for a null component over an empty array, and for
a member that an object lacks. An array in a presentation is disclosed as it is. -/
def Slack.Covers (g : Slack) (presentation : Bool) (values : Option (List ClaimValue)) :
    List PathElement → Value → Prop
  | .name k :: rest, v => match v.child (.name k) with
    | some x => g.Covers presentation values rest x
    | none => accepts presentation values (.name k :: rest) v →
        v.head = .obj [] ∧ ∀ a, (rest = [] → isMergeableObject a = false) → g.extra a
  | .index n :: rest, v => presentation = true ∨ ∀ x, v.child (.index n) = some x →
      g.Covers presentation values rest x
  | .null :: rest, .arr items =>
      (items = [] → g.empties) ∧ ∀ x ∈ items, g.Covers presentation values rest x
  | _, _ => True

theorem Slack.covers_name {g : Slack} {presentation : Bool}
    {values : Option (List ClaimValue)} {k : String} {rest : List PathElement} {v x : Value}
    (hk : v.child (.name k) = some x) :
    g.Covers presentation values (.name k :: rest) v ↔ g.Covers presentation values rest x := by
  rw [Covers, hk]

theorem Slack.covers_missing {g : Slack} {presentation : Bool}
    {values : Option (List ClaimValue)} {k : String} {rest : List PathElement} {v : Value}
    (hk : v.child (.name k) = none) :
    g.Covers presentation values (.name k :: rest) v ↔
      (accepts presentation values (.name k :: rest) v →
      v.head = .obj [] ∧ ∀ a, (rest = [] → isMergeableObject a = false) → g.extra a) := by
  rw [Covers, hk]

theorem isMergeableObject_inherited (k : String) : isMergeableObject (inherited k) = false := by
  rw [inherited]
  split_ifs <;> rfl

/-- A container with a single part is a copy where the part is one. -/
theorem Copy.single {g : Slack} {v out x a : Value} {k : Key} (hh : v.head = out.head)
    (hdt : DistinctTop out) (hentry : ∀ k', entry k' out = if k' = k then some a else none)
    (hk : v.child k = some x) (hc : Copy g x a) : Copy g v out := by
  have heq : ∀ {k' b}, entry k' out = some b → k' = k ∧ b = a := by
    intro k' b hb
    rw [hentry] at hb
    split at hb
    case isTrue hkey => exact ⟨hkey, (Option.some.inj hb).symm⟩
    case isFalse => cases hb
  refine .node hh hdt (fun k' b hb => .inl ?_) fun k' b y hb hy => ?_
  · obtain ⟨rfl, -⟩ := heq hb
    rw [hk]
    rfl
  · obtain ⟨rfl, rfl⟩ := heq hb
    obtain rfl : x = y := Option.some.inj (hk.symm.trans hy)
    exact hc

/-- The output of a claim is a copy, with the slack that its path needs. -/
theorem output_copy {g : Slack} {presentation : Bool} {path : List PathElement} :
    ∀ {index : ℕ} {v : Value} {payload : Payload}, v.Distinct →
    g.Covers presentation q.values path v →
      getJsonClaimParser zod q presentation index path v = .ok payload → payload.success →
      Copy g v payload.value := by
  induction path with
  | nil =>
    intro index v payload hd _ h hs
    obtain ⟨hv, -, -⟩ := claim_ok h hs
    rw [hv]
    exact .refl g hd
  | cons e rest ih =>
    intro index v payload hd hg h hs
    cases e with
    | name k =>
      have hacc := (success_eq h).symm.trans hs
      obtain ⟨ho, r, hr, hrs, hval⟩ := name_ok h hs
      have hp := output_present hr hrs
      rw [hval]
      cases hk : v.child (.name k) with
      | some x =>
        match v, hk with
        | .obj members, hk =>
          have hlk : members.lookup k = some x := hk
          rw [get_obj_of_some hlk] at hr
          exact .single rfl (List.nodup_singleton _) (fun _ => entry_singleton hp) hk
            (ih (hd.child hk) ((Slack.covers_name hk).mp hg) hr hrs)
      | none =>
        -- the output has an inherited member that the value itself lacks
        obtain ⟨hobj, hextra⟩ := (Slack.covers_missing hk).mp hg hacc
        match v, hobj with
        | .obj members, _ =>
          have hleaf : rest = [] → isMergeableObject r.value = false := by
            rintro rfl
            obtain ⟨hv, -, -⟩ := claim_ok hr hrs
            rw [hv, get_obj_of_none hk]
            exact isMergeableObject_inherited k
          refine .node rfl (List.nodup_singleton _) (fun k' a ha => ?_) fun k' a y ha hy => ?_
          all_goals
            rw [entry_singleton hp] at ha
            split at ha
            case isFalse => cases ha
          · subst k'
            cases ha
            exact .inr ⟨hextra _ hleaf, rfl⟩
          · subst k'
            rw [hk] at hy
            cases hy
    | index n =>
      cases presentation with
      | true =>
        obtain ⟨items, rfl, hval⟩ := presentation_index_ok h hs
        rw [hval]
        exact .refl g hd
      | false =>
        obtain ⟨items, rfl, r, hr, hrs, hval⟩ := index_ok h hs
        obtain ⟨x, hx⟩ := getElem?_of_success hr hrs
        have hn := (List.getElem?_eq_some_iff.mp hx).1
        rw [hx] at hr
        have hk : (arr items).child (.index n) = some x := hx
        rw [hval]
        exact .single rfl trivial (fun _ => entry_padded hn (output_present hr hrs)) hk
          (ih (hd.child hk) (hg.resolve_left Bool.false_ne_true x hk) hr hrs)
    | null =>
      obtain ⟨items, mapped, rfl, hm, ⟨rfl, hval⟩ | ⟨-, hval⟩⟩ := null_ok h hs
      · rw [hval]
        exact .never (hg.1 rfl)
      · have hitem : ∀ x ∈ items, ∀ r : Payload,
            getJsonClaimParser zod q presentation (index + 1) rest x = .ok r → r.success →
            Copy g x r.value := by
          intro x hx r hr hrs
          obtain ⟨n, hn⟩ := List.mem_iff_getElem?.mp hx
          exact ih (hd.child (k := .index n) hn) (hg.2 x hx) hr hrs
        rw [hval]
        refine .node rfl trivial (fun k' a ha => .inl ?_) fun k' a y ha hy => ?_
        · cases k' with
          | name s => cases ha
          | index m =>
            obtain ⟨x, r, hx, -⟩ := (entry_mapped hm).mp ha
            rw [child_index_arr, hx]
            rfl
        · cases k' with
          | name s => cases ha
          | index m =>
            obtain ⟨x, r, hx, hr, hrs, rfl⟩ := (entry_mapped hm).mp ha
            obtain rfl : x = y := Option.some.inj (hx.symm.trans hy)
            exact hitem x (List.mem_of_getElem? hx) r hr hrs

/-- What a vacuous path needs is garbage, next to JSON values. -/
theorem Slack.covers_all {garbage : Prop} {values : Option (List ClaimValue)}
    {path : List PathElement} :
    ∀ {v : Value}, (garbage → v.IsJson) → (reachesVacuous values path v → garbage) →
      (Slack.all garbage).Covers false values path v := by
  induction path with
  | nil => exact fun _ _ => trivial
  | cons e rest ih =>
    intro v hj hg
    cases e with
    | name k =>
      cases hk : v.child (.name k) with
      | some x =>
        cases v with
        | arr items => cases hk
        | leaf l => cases hk
        | obj members =>
          have hlk : members.lookup k = some x := hk
          exact (covers_name hk).mpr
            (ih (fun h => (hj h).child hk) fun h => hg (by simpa [reachesVacuous, hlk] using h))
      | none =>
        refine (covers_missing hk).mpr fun hacc => ?_
        obtain ⟨ho, hacc⟩ : v.isObject ∧ accepts false values rest (v.get k) :=
          Bool.and_eq_true_iff.mp hacc
        have hgar := hg (reachesVacuous_of_accepts ho hk hacc)
        refine ⟨?_, fun _ _ => hgar⟩
        cases v with
        | obj members => rfl
        | arr items => cases ho
        | leaf l => cases hj hgar with
          | leaf hl => cases l <;>
              first | exact absurd ho Bool.false_ne_true | exact absurd hl Bool.false_ne_true
    | index n =>
      refine .inr fun x hx => ?_
      cases v with
      | obj members => cases hx
      | leaf l => cases hx
      | arr items =>
        have hn : items[n]? = some x := hx
        exact ih (fun h => (hj h).child hx) fun h => hg (by simpa [reachesVacuous, hn] using h)
    | null =>
      cases v with
      | leaf l => trivial
      | obj members => trivial
      | arr items =>
        refine ⟨?_, fun x hx => ?_⟩
        · rintro rfl
          exact hg rfl
        · obtain ⟨n, hn⟩ := List.mem_iff_getElem?.mp hx
          refine ih (fun h => (hj h).child (k := .index n) hn) fun h => hg ?_
          rw [reachesVacuous, Bool.or_eq_true]
          exact .inr (List.any_eq_true.mpr ⟨x, hx, h⟩)

/-- A path that is not vacuous needs no slack. -/
theorem Slack.covers_tight {values : Option (List ClaimValue)} {path : List PathElement} {v : Value}
    (hg : reachesVacuous values path v = false) : Slack.tight.Covers false values path v :=
  covers_all False.elim (by simp [hg])

/-- Only a path through an inherited `__proto__` needs more than leaves. -/
theorem Slack.covers_leaves {presentation : Bool} {values : Option (List ClaimValue)}
    {path : List PathElement} :
    ∀ {v : Value}, reachesPrototype presentation values path v = false →
      Slack.leaves.Covers presentation values path v := by
  induction path with
  | nil => exact fun _ => trivial
  | cons e rest ih =>
    intro v hg
    match e, v with
    | .name k, .arr items =>
      exact (covers_missing rfl).mpr fun hacc => absurd hacc Bool.false_ne_true
    | .name k, .leaf l =>
      exact (covers_missing rfl).mpr fun hacc => absurd hacc (by simpa [reachesPrototype] using hg)
    | .name k, .obj members =>
      cases hk : members.lookup k with
      | some x =>
        exact (covers_name (show (obj members).child (.name k) = some x from hk)).mpr
          (ih (by simpa [reachesPrototype, hk] using hg))
      | none =>
        refine (covers_missing (show (obj members).child (.name k) = none from hk)).mpr fun hacc =>
          ⟨rfl, fun a ha => ha ?_⟩
        rw [reachesPrototype, hk, hacc, Bool.and_true, Bool.not_eq_false', List.isEmpty_iff] at hg
        exact hg
    | .index n, v =>
      cases presentation with
      | true => exact .inl rfl
      | false =>
        refine .inr fun x hx => ?_
        match v, hx with
        | .arr items, hx =>
          have hn : items[n]? = some x := hx
          exact ih (by simpa [reachesPrototype, hn] using hg)
    | .null, .leaf l => trivial
    | .null, .obj members => trivial
    | .null, .arr items =>
        exact ⟨fun _ => trivial, fun x hx => ih (by simpa using List.any_eq_false.mp hg x hx)⟩

/-- The output of a claim discloses what its path matches, whatever else it has. -/
theorem output_discloses {path : List PathElement} :
    ∀ {index : ℕ} {v : Value} {payload : Payload} {p : List Key},
      getJsonClaimParser zod q false index path v = .ok payload → payload.success →
      Matched q.values path v p → Discloses payload.value p := by
  induction path with
  | nil =>
    intro index v payload p h hs hm
    obtain ⟨rfl, -, -⟩ := matched_nil.mp hm
    exact discloses_nil.mpr (output_present h hs)
  | cons e rest ih =>
    intro index v payload p h hs hm
    obtain ⟨w, hsel, hw⟩ := id hm
    match e, v, hsel with
    | .name k, .obj members, hsel =>
      obtain ⟨-, r, hr, hrs, hval⟩ := name_ok h hs
      cases hk : members.lookup k with
      | none => simp [select, hk] at hsel
      | some x =>
        obtain ⟨p', rfl, hm'⟩ := (matched_name hk).mp hm
        rw [get_obj_of_some hk] at hr
        rw [hval, discloses_cons]
        exact ⟨r.value, by rw [entry_singleton (output_present hr hrs), if_pos rfl], ih hr hrs hm'⟩
    | .index n, .arr items, hsel =>
      obtain ⟨_, ⟨⟩, r, hr, hrs, hval⟩ := index_ok h hs
      cases hn : items[n]? with
      | none => simp [select, hn] at hsel
      | some x =>
        obtain ⟨p', rfl, hm'⟩ := (matched_index hn).mp hm
        rw [hn] at hr
        rw [hval, discloses_cons]
        have hlt := (List.getElem?_eq_some_iff.mp hn).1
        exact ⟨r.value, by rw [entry_padded hlt (output_present hr hrs), if_pos rfl], ih hr hrs hm'⟩
    | .null, .arr items, _ =>
      obtain ⟨n, x, p', hn, rfl, hm'⟩ := matched_null.mp hm
      obtain ⟨_, mapped, ⟨⟩, hmap, ⟨rfl, -⟩ | ⟨-, hval⟩⟩ := null_ok h hs
      · simp at hn
      · obtain ⟨r, hr⟩ := Except.exists_of_mapM hmap (List.mem_of_getElem? hn)
        have hrs : r.success := by
          rw [success_eq hr, accepts_iff]
          exact .inl (selects_iff_matched.mpr ⟨p', hm'⟩)
        rw [hval, discloses_cons]
        exact ⟨r.value, (entry_mapped hmap).mpr ⟨x, r, hn, hr, hrs, rfl⟩, ih hr hrs hm'⟩

/-- The output of a claim discloses the matched positions, what is above and what is below. -/
theorem output_projects {path : List PathElement} :
    ∀ {index : ℕ} {v : Value} {payload : Payload}, v.Distinct →
      getJsonClaimParser zod q false index path v = .ok payload → payload.success →
      reachesVacuous q.values path v = false →
      Projects (Matched q.values path v) v payload.value := by
  induction path with
  | nil =>
    intro index v payload hd h hs _
    obtain ⟨hv, hp, ha⟩ := claim_ok h hs
    rw [hv]
    exact fun p => ⟨fun h => ⟨h, [], matched_nil.mpr ⟨rfl, hp, ha⟩, .inr List.nil_prefix⟩, And.left⟩
  | cons e rest ih =>
    intro index v payload hd h hs hg
    have hne : ∃ m, Matched q.values (e :: rest) v m := by
      rw [← selects_iff_matched]
      have hacc := (accepts_iff q.values (e :: rest) v).mp (by rw [← success_eq h, hs])
      exact hacc.resolve_right (by simp [hg])
    have hpres := output_present h hs
    cases e with
    | name k =>
      obtain ⟨ho, r, hr, hrs, hval⟩ := name_ok h hs
      cases hk : v.child (.name k) with
      | none =>
        rw [reachesVacuous_of_accepts ho hk (by rw [← success_eq hr, hrs])] at hg
        cases hg
      | some x =>
        match v, hk with
        | .obj members, hk =>
          have hlk : members.lookup k = some x := hk
          rw [get_obj_of_some hlk] at hr
          have hgx : reachesVacuous q.values rest x = false := by
            simpa [reachesVacuous, hlk] using hg
          have hp := output_present hr hrs
          have hc : Copy .tight x r.value :=
            output_copy (hd.child hk) (Slack.covers_tight hgx) hr hrs
          rw [hval] at hpres ⊢
          exact .single hpres rfl (fun _ => matched_name hlk) hne (fun _ => entry_singleton hp)
            (by rw [entry, hk, Option.filter_some_pos (hc.present hp)])
            (ih (hd.child hk) hr hrs hgx)
    | index n =>
      obtain ⟨items, rfl, r, hr, hrs, hval⟩ := index_ok h hs
      obtain ⟨x, hx⟩ := getElem?_of_success hr hrs
      have hn := (List.getElem?_eq_some_iff.mp hx).1
      rw [hx] at hr
      have hk : (arr items).child (.index n) = some x := hx
      have hgx : reachesVacuous q.values rest x = false := by simpa [reachesVacuous, hx] using hg
      have hp := output_present hr hrs
      have hc : Copy .tight x r.value := output_copy (hd.child hk) (Slack.covers_tight hgx) hr hrs
      rw [hval] at hpres ⊢
      exact .single hpres rfl (fun _ => matched_index hx) hne (fun _ => entry_padded hn hp)
        (by rw [entry, hk, Option.filter_some_pos (hc.present hp)]) (ih (hd.child hk) hr hrs hgx)
    | null =>
      obtain ⟨items, mapped, rfl, hm, ⟨rfl, -⟩ | ⟨-, hval⟩⟩ := null_ok h hs
      · cases hg
      · have hgx : ∀ x ∈ items, reachesVacuous q.values rest x = false := by
          rw [reachesVacuous, Bool.or_eq_false_iff] at hg
          simpa using hg.2
        rw [hval] at hpres ⊢
        refine .node hpres rfl (by simp [matched_null]) hne fun k' => ?_
        cases k' with
        | name s => exact .inl ⟨rfl, by simp [matched_null]⟩
        | index n =>
          cases hx : items[n]? with
          | none =>
            refine .inl ⟨(entry_mapped_eq_none hm).mpr fun x r hx' => ?_, ?_⟩
            swap
            · simp [matched_null, hx]
            rw [hx] at hx'
            cases hx'
          | some x =>
            have hmatched : ∀ m, Matched q.values (.null :: rest) (arr items) (.index n :: m) ↔
                Matched q.values rest x m := by
              intro m
              simp [matched_null, hx]
            obtain ⟨r, hr⟩ := Except.exists_of_mapM hm (List.mem_of_getElem? hx)
            by_cases hrs : r.success
            · have hgx := hgx x (List.mem_of_getElem? hx)
              have hk : (arr items).child (.index n) = some x := hx
              have hc : Copy .tight x r.value :=
                output_copy (hd.child hk) (Slack.covers_tight hgx) hr hrs
              refine .inr ⟨r.value, x, (entry_mapped hm).mpr ⟨x, r, hx, hr, hrs, rfl⟩, ?_, ?_⟩
              · rw [entry, hk, Option.filter_some_pos (hc.present (output_present hr hrs))]
              · simp only [hmatched]
                exact ih (hd.child hk) hr hrs hgx
            · -- what no path matches is not disclosed
              refine .inl ⟨(entry_mapped_eq_none hm).mpr fun x' r' hx' hr' => ?_,
                fun m hm => hrs ?_⟩
              · obtain rfl : x = x' := Option.some.inj (hx.symm.trans hx')
                obtain rfl : r = r' := Except.ok.inj (hr.symm.trans hr')
                exact hrs
              · rw [success_eq hr, accepts_iff]
                exact .inl (selects_iff_matched.mpr ⟨m, (hmatched m).mp hm⟩)

/-- The output of a vacuous path has garbage. -/
theorem output_garbage {path : List PathElement} :
    ∀ {index : ℕ} {v : Value} {payload : Payload}, v.IsJson →
      getJsonClaimParser zod q false index path v = .ok payload → payload.success →
      reachesVacuous q.values path v → Garbage v payload.value := by
  induction path with
  | nil => exact fun _ _ _ hg => by cases hg
  | cons e rest ih =>
    intro index v payload hj h hs hg
    cases e with
    | name k =>
      obtain ⟨ho, r, hr, hrs, hval⟩ := name_ok h hs
      match v, hj, ho with
      | .obj members, hj, _ =>
        rw [hval, garbage_iff]
        refine .inr ⟨.name k,
          r.value, by rw [entry_singleton (output_present hr hrs), if_pos rfl], ?_⟩
        intro x hx
        have hlk : members.lookup k = some x := hx
        rw [get_obj_of_some hlk] at hr
        exact ih (hj.child hx) hr hrs (by simpa [reachesVacuous, hlk] using hg)
    | index n =>
      obtain ⟨items, rfl, r, hr, hrs, hval⟩ := index_ok h hs
      obtain ⟨x, hx⟩ := getElem?_of_success hr hrs
      have hn := (List.getElem?_eq_some_iff.mp hx).1
      have hk : (arr items).child (.index n) = some x := hx
      rw [hx] at hr
      rw [hval, garbage_iff]
      refine .inr ⟨.index n,
        r.value, by rw [entry_padded hn (output_present hr hrs), if_pos rfl], ?_⟩
      intro y hy
      obtain rfl : x = y := Option.some.inj (hk.symm.trans hy)
      exact ih (hj.child hk) hr hrs (by simpa [reachesVacuous, hx] using hg)
    | null =>
      obtain ⟨items, mapped, rfl, hm, ⟨rfl, hval⟩ | ⟨hany, hval⟩⟩ := null_ok h hs
      · rw [hval]
        exact garbage_never
      · rw [reachesVacuous, Bool.or_eq_true] at hg
        obtain hempty | hg := hg
        · obtain rfl : items = [] := by simpa using hempty
          cases hm
          cases hany
        · obtain ⟨x, hx, hgx⟩ := List.any_eq_true.mp hg
          obtain ⟨n, hn⟩ := List.mem_iff_getElem?.mp hx
          have hk : (arr items).child (.index n) = some x := hn
          obtain ⟨r, hr⟩ := Except.exists_of_mapM hm hx
          have hrs : r.success := by
            rw [success_eq hr, accepts_iff]
            exact .inr hgx
          rw [hval, garbage_iff]
          refine .inr ⟨.index n, r.value, (entry_mapped hm).mpr ⟨x, r, hn, hr, hrs, rfl⟩, ?_⟩
          intro y hy
          obtain rfl : x = y := Option.some.inj (hk.symm.trans hy)
          exact ih (hj.child hk) hr hrs hgx

end Output

end IdentityCommon.Dcql
