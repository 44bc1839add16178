import IdentityCommon.Dcql.ClaimParser

/-!
# Claims path pointers

What a claims path pointer selects, and how far the parsers of claims agree with it.

## Main definitions

- `select` — the elements that a path selects, with their positions
- `accepts`, `raises` — whether a parser accepts a value, and whether it throws
- `finds` — whether it accepts more than an empty array
- `reachesVacuous` — the path leads to a null component over an empty array, or to inherited
  members only
- `reachesPrototype` — the path leads through an inherited `__proto__`

## Main results

- `getJsonClaimParser_spec` — a parser throws or accepts as `raises` and `accepts` say
- `accepts_iff` — a value is accepted when the path selects an allowed element or is vacuous
-/

namespace IdentityCommon.Dcql

open Ecma AssocList Value

/-! ## The reference evaluation -/

/-- The elements that a path selects, with their positions: a name selects the own member, an index
that element and null every element; what lacks the next component is dropped. -/
def select : List PathElement → Value → List (List Key × Value)
  | [], v => [([], v)]
  | .name k :: rest, .obj members => match members.lookup k with
    | some x => (select rest x).map fun m => (.name k :: m.1, m.2)
    | none => []
  | .index n :: rest, .arr items => match items[n]? with
    | some x => (select rest x).map fun m => (.index n :: m.1, m.2)
    | none => []
  | .null :: rest, .arr items =>
    items.zipIdx.flatMap fun (x, n) => (select rest x).map fun m => (.index n :: m.1, m.2)
  | _, _ => []

/-- The path selects an element that is present and one of the values. -/
def Selects (values : Option (List ClaimValue)) (path : List PathElement) (v : Value) : Prop :=
  ∃ m ∈ select path v, isPresent m.2 ∧ isAllowed values m.2

section Select

attribute [local simp] select

variable {values : Option (List ClaimValue)} {rest : List PathElement} {k : String} {n : ℕ}
  {members : List (String × Value)} {items : List Value} {x : Value}

theorem selects_nil {v : Value} : Selects values [] v ↔ isPresent v ∧ isAllowed values v := by
  simp [Selects, select]

theorem selects_name (h : members.lookup k = some x) :
    Selects values (.name k :: rest) (.obj members) ↔ Selects values rest x := by
  simp only [Selects, select, h, List.mem_map, exists_exists_and_eq_and]

theorem not_selects_name (h : members.lookup k = none) :
    ¬ Selects values (.name k :: rest) (.obj members) := by
  simp [Selects, select, h]

theorem selects_index (h : items[n]? = some x) :
    Selects values (.index n :: rest) (.arr items) ↔ Selects values rest x := by
  simp only [Selects, select, h, List.mem_map, exists_exists_and_eq_and]

theorem not_selects_index (h : items[n]? = none) :
    ¬ Selects values (.index n :: rest) (.arr items) := by
  simp [Selects, select, h]

theorem mem_select_name {m : List Key × Value} (h : members.lookup k = some x) :
    m ∈ select (.name k :: rest) (.obj members) ↔
      ∃ p, (p, m.2) ∈ select rest x ∧ m.1 = .name k :: p := by
  simp only [select, h, List.mem_map, Prod.exists]
  constructor
  · rintro ⟨p, w, hm, rfl⟩
    exact ⟨p, hm, rfl⟩
  · rintro ⟨p, hm, hp⟩
    exact ⟨p, m.2, hm, by rw [← hp]⟩

theorem mem_select_index {m : List Key × Value} (h : items[n]? = some x) :
    m ∈ select (.index n :: rest) (.arr items) ↔
      ∃ p, (p, m.2) ∈ select rest x ∧ m.1 = .index n :: p := by
  simp only [select, h, List.mem_map, Prod.exists]
  constructor
  · rintro ⟨p, w, hm, rfl⟩
    exact ⟨p, hm, rfl⟩
  · rintro ⟨p, hm, hp⟩
    exact ⟨p, m.2, hm, by rw [← hp]⟩

theorem mem_select_null {m : List Key × Value} :
    m ∈ select (.null :: rest) (.arr items) ↔
      ∃ n x, items[n]? = some x ∧ ∃ p, (p, m.2) ∈ select rest x ∧ m.1 = .index n :: p := by
  simp only [select, List.mem_flatMap, Prod.exists, List.mem_zipIdx_iff_getElem?, List.mem_map]
  constructor
  · rintro ⟨x, n, hx, p, w, hm, rfl⟩
    exact ⟨n, x, hx, p, hm, rfl⟩
  · rintro ⟨n, x, hx, p, hm, hp⟩
    exact ⟨x, n, hx, p, m.2, hm, by rw [← hp]⟩

theorem selects_null :
    Selects values (.null :: rest) (.arr items) ↔ ∃ x ∈ items, Selects values rest x := by
  constructor
  · rintro ⟨m, hm, ha⟩
    obtain ⟨n, x, hx, p, hp, -⟩ := mem_select_null.mp hm
    exact ⟨x, List.mem_of_getElem? hx, (p, m.2), hp, ha⟩
  · rintro ⟨x, hx, m, hm, ha⟩
    obtain ⟨n, hn⟩ := List.mem_iff_getElem?.mp hx
    exact ⟨(.index n :: m.1, m.2), mem_select_null.mpr ⟨n, x, hn, m.1, hm, rfl⟩, ha⟩

end Select

/-! ## What the parsers do -/

/-- The parser accepts the value, unless it throws. -/
def accepts (presentation : Bool) (values : Option (List ClaimValue)) :
    List PathElement → Value → Bool
  | [], v => isPresent v && isAllowed values v
  | .name k :: rest, v => v.isObject && accepts presentation values rest (v.get k)
  | .index n :: rest, .arr items =>
    if presentation then items.any (accepts presentation values rest)
    else accepts presentation values rest (items[n]?.getD .undefined)
  | .null :: rest, .arr items => items.isEmpty || items.any (accepts presentation values rest)
  | _, _ => false

/-- The parser of a credential finds what it accepts: a null component over an empty array finds
nothing. -/
def finds (values : Option (List ClaimValue)) : List PathElement → Value → Bool
  | [], v => isPresent v && isAllowed values v
  | .name k :: rest, v => v.isObject && finds values rest (v.get k)
  | .index n :: rest, .arr items => finds values rest (items[n]?.getD .undefined)
  | .null :: rest, .arr items => items.any (finds values rest)
  | _, _ => false

/-- An element for which `raised` holds comes before every element for which `accepted` does. -/
def raisesBefore (accepted raised : Value → Bool) : List Value → Bool
  | [] => false
  | x :: items => raised x || (!accepted x && raisesBefore accepted raised items)

/-- The parser throws: it is about to report a value that has no text, or, in a presentation, to
loop over a value that is not an array. -/
def raises (zod : Zod) (presentation : Bool) (values : Option (List ClaimValue)) :
    List PathElement → Value → Bool
  | [], v => isPresent v && !isAllowed values v && v.toText.isNone
  | .name k :: rest, v => v.isObject && raises zod presentation values rest (v.get k)
  | .index n :: rest, .arr items =>
    if presentation then
      raisesBefore (accepts presentation values rest) (raises zod presentation values rest) items
    else raises zod presentation values rest (items[n]?.getD .undefined)
  | .index _ :: _, _ => presentation && zod.runsAllChecks
  | .null :: rest, .arr items => items.any (raises zod presentation values rest)
  | .null :: _, _ => false

/-- Every plain object inherits a value under this name. -/
def inheritedName (k : String) : Bool := k = "__proto__" || k ∈ prototypeNames

/-- A path of names that an object without own members leads to a value with. -/
def inheritedPath : List PathElement → Bool
  | [.name k] => inheritedName k
  | [.name p, .name k] => p = "__proto__" && inheritedName k
  | _ => false

/-- The path leads to a null component over an empty array or, where any value is allowed, to an
object from which on it only names inherited members. -/
def reachesVacuous (values : Option (List ClaimValue)) : List PathElement → Value → Bool
  | .name k :: rest, .obj members => match members.lookup k with
    | some x => reachesVacuous values rest x
    | none => values.isNone && inheritedPath (.name k :: rest)
  | .name k :: rest, .leaf .objectPrototype => values.isNone && rest.isEmpty && inheritedName k
  | .name k :: rest, .leaf (.host _) => values.isNone && inheritedPath (.name k :: rest)
  | .index n :: rest, .arr items => match items[n]? with
    | some x => reachesVacuous values rest x
    | none => false
  | .null :: rest, .arr items => items.isEmpty || items.any (reachesVacuous values rest)
  | _, _ => false

/-- The path leads through a `__proto__` that is inherited, or into an object of another class. In a
presentation the array at an index is disclosed as it is. -/
def reachesPrototype (presentation : Bool) (values : Option (List ClaimValue)) :
    List PathElement → Value → Bool
  | .name k :: rest, .obj members => match members.lookup k with
    | some x => reachesPrototype presentation values rest x
    | none => !rest.isEmpty && accepts presentation values (.name k :: rest) (.obj members)
  | .name k :: rest, .leaf l => accepts presentation values (.name k :: rest) (.leaf l)
  | .index n :: rest, .arr items => !presentation && match items[n]? with
    | some x => reachesPrototype presentation values rest x
    | none => false
  | .null :: rest, .arr items => items.any (reachesPrototype presentation values rest)
  | _, _ => false

/-! ## Parsers throw or accept -/

/-- `parser` throws where `raised` holds and accepts where else `accepted` does. -/
structure Spec (parser : Parser) (raised accepted : Value → Bool) : Prop where
  error : ∀ v, raised v → parser v = .error ⟨⟩
  ok : ∀ v, raised v = false → ∃ payload, parser v = .ok payload ∧ payload.success = accepted v

/-- What a parser that returned did. -/
theorem Spec.success_eq {parser : Parser} {raised accepted : Value → Bool}
    (h : Spec parser raised accepted) {v : Value} {payload : Payload}
    (hok : parser v = .ok payload) :
    payload.success = accepted v := by
  cases hr : raised v with
  | true =>
    rw [h.error v hr] at hok
    cases hok
  | false =>
    obtain ⟨p, hp, hs⟩ := h.ok v hr
    rw [hok] at hp
    cases hp
    exact hs

theorem Spec.congr {parser : Parser} {raised accepted raised' accepted' : Value → Bool}
    (h : Spec parser raised accepted) (hr : ∀ v, raised v = raised' v)
    (ha : ∀ v, accepted v = accepted' v) : Spec parser raised' accepted' := by
  obtain rfl := funext hr
  obtain rfl := funext ha
  exact h

theorem formatValue_error {v : Value} (h : v.toText = none) : formatValue v = .error ⟨⟩ := by
  unfold formatValue
  split
  case h_1 => simp [toText] at h
  case h_2 => rw [h]

theorem formatValue_ok {v : Value} (h : v.toText.isNone = false) : ∃ s, formatValue v = .ok s := by
  unfold formatValue
  split
  case h_1 s => exact ⟨_, rfl⟩
  case h_2 =>
    obtain ⟨text, ht⟩ := Option.isSome_iff_exists.mp (by simpa using h)
    rw [ht]
    exact ⟨text, rfl⟩

theorem getClaimParser_spec (path : List PathElement) (values : Option (List ClaimValue)) :
    Spec (getClaimParser path values)
      (fun v => isPresent v && !isAllowed values v && v.toText.isNone)
      (fun v => isPresent v && isAllowed values v) := by
  constructor
  · intro v hr
    obtain ⟨⟨hp, ha⟩, ht⟩ : (isPresent v = true ∧ isAllowed values v = false) ∧
        v.toText = none := by
      simpa using hr
    simp [getClaimParser, hp, ha, formatValue_error ht, bind, Except.bind]
  · intro v hr
    by_cases hp : isPresent v
    · by_cases ha : isAllowed values v
      · exact ⟨⟨v, []⟩, by simp [getClaimParser, hp, ha, pure, Except.pure], by
          simp [hp, ha, Payload.success]⟩
      · obtain ⟨s, hs⟩ := formatValue_ok (v := v) (by simpa [hp, ha] using hr)
        refine ⟨_, by simp [getClaimParser, hp, ha, hs, bind, Except.bind,
          pure, Except.pure]; rfl, ?_⟩
        simp [ha, Payload.success]
    · exact ⟨_, by simp [getClaimParser, hp, pure, Except.pure]; rfl, by simp [hp, Payload.success]⟩

section Spec

variable {parser : Parser} {raised accepted : Value → Bool} (h : Spec parser raised accepted)

include h

theorem Spec.zClaimObject (key message : String) :
    Spec (zClaimObject key parser message) (fun v => v.isObject && raised (v.get key))
      (fun v => v.isObject && accepted (v.get key)) := by
  constructor
  · intro v hr
    obtain ⟨ho, hr⟩ := Bool.and_eq_true_iff.mp hr
    simp [Dcql.zClaimObject, ho, h.error _ hr, bind, Except.bind]
  · intro v hr
    by_cases ho : v.isObject
    · obtain ⟨payload, hp, hs⟩ := h.ok (v.get key) (by simpa [ho] using hr)
      refine ⟨_, by simp [Dcql.zClaimObject, ho, hp, bind, Except.bind, pure, Except.pure]; rfl, ?_⟩
      simpa [Payload.success, ho] using hs
    · exact ⟨_, by simp [Dcql.zClaimObject, ho, pure, Except.pure]; rfl, by
        simp [ho, Payload.success]⟩

theorem Spec.anyItem (items : List Value) : ∀ (i : ℕ) (issues : List Issue),
    (raisesBefore accepted raised items → anyItem parser i items issues = .error ⟨⟩) ∧
    (raisesBefore accepted raised items = false →
      if items.any accepted then anyItem parser i items issues = .ok none
      else ∃ more, anyItem parser i items issues = .ok (some (issues ++ more)) ∧
        (items = [] ↔ more = [])) := by
  induction items with
  | nil =>
    intro i issues
    refine ⟨nofun, fun _ => ?_⟩
    exact ⟨[], by simp [Dcql.anyItem, pure, Except.pure], by simp⟩
  | cons x items ih =>
    intro i issues
    refine ⟨fun hr => ?_, fun hr => ?_⟩
    · by_cases hx : raised x
      · simp [Dcql.anyItem, h.error x hx, bind, Except.bind]
      · obtain ⟨ha, hr⟩ : accepted x = false ∧ raisesBefore accepted raised items := by
          simpa [raisesBefore, hx] using hr
        obtain ⟨payload, hp, hs⟩ := h.ok x (by simpa using hx)
        simp [Dcql.anyItem, hp, hs, ha, bind, Except.bind, (ih _ _).1 hr]
    · obtain ⟨hx, hr⟩ : raised x = false ∧
          (accepted x = false → raisesBefore accepted raised items = false) := by
        simpa [raisesBefore] using hr
      obtain ⟨payload, hp, hs⟩ := h.ok x hx
      by_cases ha : accepted x
      · simp [Dcql.anyItem, hp, hs, ha, bind, Except.bind, pure, Except.pure]
      · have ha : accepted x = false := by simpa using ha
        have hrest := (ih (i + 1)
          (issues ++ (payload.issues.take 1).map (nestedIssue · [.index i]))).2 (hr ha)
        have hne : payload.issues ≠ [] := by
          intro he
          simp [Payload.success, he, ha] at hs
        simp only [List.any_cons, ha, Bool.false_or]
        split
        case isTrue hany =>
          simpa [Dcql.anyItem, hp, hs, ha, bind, Except.bind, hany] using hrest
        case isFalse hany =>
          rw [if_neg hany] at hrest
          obtain ⟨more, hm, -⟩ := hrest
          refine ⟨(payload.issues.take 1).map (nestedIssue · [.index i]) ++ more, ?_, ?_⟩
          · rw [Dcql.anyItem, hp, ← List.append_assoc, ← hm]
            simp only [bind, Except.bind, hs, ha, Bool.false_eq_true, if_false]
          · simp [hne]

theorem Spec.zAnyItem (zod : Zod) (arrayPath notArray : String) (isLast : Bool) :
    Spec (zAnyItem zod arrayPath notArray isLast parser)
      (fun v => match v with
        | .arr items => raisesBefore accepted raised items
        | _ => zod.runsAllChecks)
      (fun v => match v with
        | .arr items => items.any accepted
        | _ => false) := by
  constructor
  · intro v hr
    cases v with
    | arr items => simp [Dcql.zAnyItem, (h.anyItem items 0 []).1 hr, bind, Except.bind]
    | leaf l => simp only at hr; simp [Dcql.zAnyItem, hr, throw, throwThe, MonadExceptOf.throw]
    | obj members => simp only at hr; simp [Dcql.zAnyItem, hr, throw, throwThe, MonadExceptOf.throw]
  · intro v hr
    cases v with
    | arr items =>
      have hok := (h.anyItem items 0 []).2 hr
      by_cases hany : items.any accepted
      · rw [if_pos hany] at hok
        refine ⟨⟨.arr items, []⟩, by simp [Dcql.zAnyItem, hok, bind, Except.bind,
          pure, Except.pure], ?_⟩
        simp [Payload.success, hany]
      · rw [if_neg hany] at hok
        obtain ⟨more, hm, -⟩ := hok
        have hany : items.any accepted = false := by simpa using hany
        cases more with
        | nil => exact ⟨_, by simp [Dcql.zAnyItem, hm, bind, Except.bind, pure, Except.pure]; rfl,
            by simp [Payload.success, hany]⟩
        | cons issue more =>
          exact ⟨_, by simp [Dcql.zAnyItem, hm, bind, Except.bind, pure, Except.pure]; rfl,
            by simp [Payload.success, hany]⟩
    | leaf l => simp only at hr; exact ⟨_, by simp [Dcql.zAnyItem, hr, pure, Except.pure]; rfl, rfl⟩
    | obj members =>
        simp only at hr; exact ⟨_, by simp [Dcql.zAnyItem, hr, pure, Except.pure]; rfl, rfl⟩

/-- The parsers of the elements of an array. -/
theorem Spec.mapM (items : List Value) :
    (items.any raised → items.mapM parser = .error ⟨⟩) ∧
    (items.any raised = false → ∃ mapped, items.mapM parser = .ok mapped ∧
      List.Forall₂ (fun x (p : Payload) => parser x = .ok p ∧
        p.success = accepted x) items mapped) := by
  constructor
  · intro hr
    obtain ⟨x, hx, hr⟩ := List.any_eq_true.mp hr
    obtain ⟨e, he⟩ := Except.mapM_eq_error hx (h.error x hr)
    exact he
  · intro hr
    have hok : ∀ x ∈ items, ∃ p, parser x = .ok p ∧ p.success = accepted x := fun x hx =>
      h.ok x (by simpa using List.any_eq_false.mp hr x hx)
    obtain ⟨mapped, hm⟩ := Except.exists_mapM_eq_ok fun x hx => (hok x hx).imp fun _ => And.left
    refine ⟨mapped, hm, ?_⟩
    refine (List.forall₂_iff_get.mpr ?_)
    obtain ⟨hl, hget⟩ := List.forall₂_iff_get.mp (Except.mapM_eq_ok.mp hm)
    refine ⟨hl, fun i h₁ h₂ => ?_⟩
    obtain ⟨p, hp, hs⟩ := hok _ (List.get_mem items ⟨i, h₁⟩)
    have hp' := hget i h₁ h₂
    rw [hp] at hp'
    cases hp'
    exact ⟨hp, hs⟩

end Spec

theorem zClaimArray_spec {transform : List Value → Except TypeError Payload}
    {raised accepted : List Value → Bool} (message : String)
    (herror : ∀ items, raised items → transform items = .error ⟨⟩)
    (hok : ∀ items, raised items = false →
      ∃ payload, transform items = .ok payload ∧ payload.success = accepted items) :
    Spec (zClaimArray message transform)
      (fun v => match v with
        | .arr items => raised items
        | _ => false)
      (fun v => match v with
        | .arr items => accepted items
        | _ => false) := by
  constructor
  · intro v hr
    cases v with
    | arr items => exact herror items hr
    | leaf l => cases hr
    | obj members => cases hr
  · intro v hr
    cases v with
    | arr items => exact hok items hr
    | leaf l => exact ⟨_, rfl, rfl⟩
    | obj members => exact ⟨_, rfl, rfl⟩

theorem Payload.issues_ne_nil {p : Payload} (h : p.success = false) : p.issues ≠ [] := by
  intro he
  simp [Payload.success, he] at h

/-- The parser for an index component outside of presentations. -/
theorem Spec.index {parser : Parser} {raised accepted : Value → Bool}
    (h : Spec parser raised accepted) (n : ℕ) (message : String) :
    Spec (zClaimArray message fun items => do
        let result ← parser (items[n]?.getD .undefined)
        if result.success then
          return ⟨.arr ((items.take n).map (fun _ => .notDisclosed) ++ [result.value]), []⟩
        else
          return ⟨NEVER, (result.issues.take 1).map (nestedIssue · [.index n])⟩)
      (fun v => match v with
        | .arr items => raised (items[n]?.getD .undefined)
        | _ => false)
      (fun v => match v with
        | .arr items => accepted (items[n]?.getD .undefined)
        | _ => false) := by
  refine zClaimArray_spec message (fun items hr => ?_) fun items hr => ?_
  · simp [h.error _ hr, bind, Except.bind]
  · obtain ⟨payload, hok, hs⟩ := h.ok _ hr
    by_cases ha : payload.success
    · refine ⟨_, by simp only [hok, ha, bind, Except.bind, if_true]; rfl, ?_⟩
      rw [← hs, ha]
      rfl
    · have ha : payload.success = false := by simpa using ha
      refine ⟨⟨NEVER, (payload.issues.take 1).map (nestedIssue · [.index n])⟩, by
        simp [hok, ha, bind, Except.bind, pure, Except.pure], ?_⟩
      rw [← hs, ha]
      have hne := Payload.issues_ne_nil ha
      cases hi : payload.issues with
      | nil => exact absurd hi hne
      | cons issue issues => rfl

/-- The parser for a null component. -/
theorem Spec.null {parser : Parser} {raised accepted : Value → Bool}
    (h : Spec parser raised accepted) (message : String) :
    Spec (zClaimArray message fun items => do
        let mapped ← items.mapM parser
        if mapped.all (!·.success) then
          return ⟨NEVER, mapped.zipIdx.flatMap fun (parsed, itemIndex) =>
            parsed.issues.map (nestedIssue · [.index itemIndex])⟩
        else
          return ⟨.arr (mapped.map fun parsed => if parsed.success then parsed.value
            else .notDisclosed), []⟩)
      (fun v => match v with
        | .arr items => items.any raised
        | _ => false)
      (fun v => match v with
        | .arr items => items.isEmpty || items.any accepted
        | _ => false) := by
  refine zClaimArray_spec message (fun items hr => ?_) fun items hr => ?_
  · simp [(h.mapM items).1 hr, bind, Except.bind]
  · obtain ⟨mapped, hm, h₂⟩ := (h.mapM items).2 hr
    simp only [hm, bind, Except.bind, pure, Except.pure]
    have hany : mapped.any Payload.success = items.any accepted := by
      clear hr hm
      induction h₂ with
      | nil => rfl
      | cons hx _ ih => simp [hx.2, ih]
    by_cases ha : mapped.all (!·.success)
    · refine ⟨_, if_pos ha, ?_⟩
      have hnone : items.any accepted = false := by
        rw [← hany, ← Bool.not_eq_true', List.not_any_eq_all_not]
        exact ha
      rw [hnone, Bool.or_false]
      cases h₂ with
      | nil => rfl
      | @cons x parsed items mapped hx _ =>
        -- the first element has an issue
        have hne := Payload.issues_ne_nil (p := parsed)
          (by simpa using (List.all_eq_true.mp ha) parsed (by simp))
        cases hi : parsed.issues with
        | nil => exact absurd hi hne
        | cons issue issues => simp [Payload.success, hi]
    · refine ⟨_, if_neg ha, ?_⟩
      have hsome : items.any accepted := by
        rw [← hany]
        simpa [List.not_any_eq_all_not] using ha
      simp [Payload.success, hsome]

/-- A parser throws or accepts as `raises` and `accepts` say. -/
theorem getJsonClaimParser_spec (zod : Zod) (q : W3cAndSdJwtVc) (presentation : Bool)
    (path : List PathElement) : ∀ index, Spec (getJsonClaimParser zod q presentation index path)
      (raises zod presentation q.values path) (accepts presentation q.values path) := by
  induction path with
  | nil => exact fun _ => getClaimParser_spec q.path q.values
  | cons e rest ih =>
    intro index
    have h := ih (index + 1)
    cases e with
    | name k => exact h.zClaimObject k _
    | index n =>
      cases presentation with
      | true =>
        refine (h.zAnyItem zod _ _ rest.isEmpty).congr ?_ ?_
        · intro v
          cases v <;> simp [raises]
        · intro v
          cases v <;> simp [accepts]
      | false =>
        refine (h.index n _).congr ?_ ?_
        · intro v
          cases v <;> simp [raises]
        · intro v
          cases v <;> simp [accepts]
    | null =>
      refine (h.null _).congr ?_ ?_
      · intro v
        cases v <;> simp [raises]
      · intro v
        cases v <;> simp [accepts]

/-! ## Accepted values -/

/-- Components after a value that is not an object or array find nothing. -/
theorem accepts_leaf {l : Leaf} (ho : (leaf l).isObject = false) (presentation : Bool)
    (values : Option (List ClaimValue)) (rest : List PathElement) :
    accepts presentation values rest (leaf l) =
      (isPresent (leaf l) && isAllowed values (leaf l) && rest.isEmpty) := by
  cases rest with
  | nil => simp [accepts]
  | cons e rest => cases e <;> simp [accepts, ho]

theorem isAllowed_leaf {l : Leaf} (h : ∀ c : ClaimValue, c.toLeaf ≠ l)
    (values : Option (List ClaimValue)) : isAllowed values (leaf l) = values.isNone := by
  cases values with
  | none => rfl
  | some vs => simp [isAllowed, h]

/-- What an object inherits is accepted where any value is, if nothing follows. -/
theorem accepts_builtin (presentation : Bool) (values : Option (List ClaimValue)) (k : String)
    (rest : List PathElement) :
    accepts presentation values rest (leaf (.builtin k)) = (values.isNone && rest.isEmpty) := by
  rw [accepts_leaf rfl, isAllowed_leaf (by rintro (_ | _ | _) <;> simp [ClaimValue.toLeaf])]
  rfl

theorem accepts_get_objectPrototype (presentation : Bool)
    (values : Option (List ClaimValue)) (k : String) (rest : List PathElement) :
    accepts presentation values rest (get k (leaf .objectPrototype)) =
      (values.isNone && rest.isEmpty && inheritedName k) := by
  by_cases hp : k = "__proto__"
  · subst hp
    have hn : get "__proto__" (leaf .objectPrototype) = null := rfl
    rw [hn, accepts_leaf rfl, isAllowed_leaf (by rintro (_ | _ | _) <;> simp [ClaimValue.toLeaf])]
    simp [isPresent, inheritedName]
  · by_cases hk : k ∈ prototypeNames
    · simp [Value.get, inherited, hp, hk, accepts_builtin, inheritedName]
    · simp [Value.get, inherited, hp, hk, accepts_leaf (l := .undefined) rfl,
        isPresent, inheritedName]

theorem accepts_inherited (presentation : Bool) (values : Option (List ClaimValue)) (k : String)
    (rest : List PathElement) :
    accepts presentation values rest (inherited k) =
      (values.isNone && inheritedPath (.name k :: rest)) := by
  by_cases hp : k = "__proto__"
  · subst hp
    rw [inherited, if_pos rfl]
    cases rest with
    | nil =>
      simp only [accepts]
      rw [isAllowed_leaf (by rintro (_ | _ | _) <;> simp [ClaimValue.toLeaf])]
      simp [isPresent, inheritedPath, inheritedName]
    | cons e rest =>
      cases e with
      | name k =>
        simp only [accepts, isObject, Bool.true_and, accepts_get_objectPrototype]
        cases rest <;> simp [inheritedPath]
      | index n => simp [accepts, inheritedPath]
      | null => simp [accepts, inheritedPath]
  · have hpath : inheritedPath (.name k :: rest) = (rest.isEmpty && inheritedName k) := by
      match rest with
      | [] => simp [inheritedPath]
      | [.name k'] => simp [inheritedPath, hp]
      | [.index n] | [.null] => rfl
      | e :: e' :: rest => cases e <;> rfl
    rw [hpath, ← Bool.and_assoc, inherited, if_neg hp]
    by_cases hk : k ∈ prototypeNames
    · rw [if_pos hk, accepts_builtin]
      simp [inheritedName, hk]
    · rw [if_neg hk, accepts_leaf rfl]
      simp [isPresent, inheritedName, hp, hk]

/-- A value is accepted when the path selects an allowed element, or is vacuous. -/
theorem accepts_iff (values : Option (List ClaimValue)) (path : List PathElement) (v : Value) :
    accepts false values path v ↔ Selects values path v ∨ reachesVacuous values path v := by
  induction path generalizing v with
  | nil => simp [accepts, selects_nil, reachesVacuous]
  | cons e rest ih =>
    cases e with
    | name k =>
      cases v with
      | obj members =>
        cases hk : members.lookup k with
        | some x =>
          simp [accepts, isObject, get_obj_of_some hk, hk, selects_name hk, reachesVacuous, ih]
        | none =>
          simp [accepts, isObject, get_obj_of_none hk, hk, not_selects_name hk, reachesVacuous,
            accepts_inherited]
      | arr items => simp [accepts, isObject, Selects, select, reachesVacuous]
      | leaf l =>
        cases l with
        | objectPrototype =>
          simp [accepts, isObject, accepts_get_objectPrototype, Selects, select, reachesVacuous]
        | host text =>
          have hg : get k (leaf (.host text)) = inherited k := rfl
          simp [accepts, isObject, hg, accepts_inherited, Selects, select, reachesVacuous]
        | undefined | null | bool | num | str | notDisclosed | builtin =>
          simp [accepts, isObject, Selects, select, reachesVacuous]
    | index n =>
      cases v with
      | arr items =>
        cases hn : items[n]? with
        | some x => simp [accepts, hn, selects_index hn, reachesVacuous, ih]
        | none =>
          simp [accepts, hn, not_selects_index hn, reachesVacuous,
            accepts_leaf (l := .undefined) rfl, isPresent]
      | leaf l => simp [accepts, Selects, select, reachesVacuous]
      | obj members => simp [accepts, Selects, select, reachesVacuous]
    | null =>
      cases v with
      | arr items =>
        simp only [accepts, selects_null, reachesVacuous, Bool.or_eq_true, List.any_eq_true, ih]
        constructor
        · rintro (h | ⟨x, hx, h | h⟩)
          · exact .inr (.inl h)
          · exact .inl ⟨x, hx, h⟩
          · exact .inr (.inr ⟨x, hx, h⟩)
        · rintro (⟨x, hx, h⟩ | h | ⟨x, hx, h⟩)
          · exact .inr ⟨x, hx, .inl h⟩
          · exact .inl h
          · exact .inr ⟨x, hx, .inr h⟩
      | leaf l => simp [accepts, Selects, select, reachesVacuous]
      | obj members => simp [accepts, Selects, select, reachesVacuous]

end IdentityCommon.Dcql
