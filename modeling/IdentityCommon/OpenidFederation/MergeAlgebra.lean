import IdentityCommon.Lib.PartialMerge
import IdentityCommon.OpenidFederation.PolicyMerge

/-!
# The algebra of operator values

Merging two values of one operator, as an operation on the values that the operator takes: when it
succeeds, with what result, and that it is associative up to the order of sets.

## Main definitions

- `SameValue` — equal values of an operator, sets in any order
- `mergeValid` — merging two values, where the result has to be a value of the operator
- `merged`, `Mergeable` — what two values are merged to, and when

## Main results

- `mergeValid_eq_ok` — when merging succeeds, and with what
- `mergeValid_assoc` — merging is associative
-/

namespace IdentityCommon.OpenidFederation

open IdentityCommon.Except Ecma Value PartialMerge

/-! ## Values -/

/-- The operators whose values are sets. -/
def Operator.isSet : Operator → Bool
  | .add | .oneOf | .subsetOf | .supersetOf => true
  | .default | .essential | .value => false

/-- Equal values of an operator, up to the order of a set. -/
def SameValue (op : Operator) (v w : Value) : Prop :=
  if op.isSet then ∀ x, x ∈ elements v ↔ x ∈ elements w else v = w

theorem SameValue.refl (op : Operator) (v : Value) : SameValue op v v := by
  unfold SameValue
  split
  · exact fun x => Iff.rfl
  · rfl

theorem SameValue.symm {op : Operator} {v w : Value} (h : SameValue op v w) : SameValue op w v := by
  unfold SameValue at h ⊢
  split at h
  case isTrue hs =>
    rw [if_pos hs]
    exact fun x => (h x).symm
  case isFalse hs =>
    rw [if_neg hs]
    exact h.symm

theorem SameValue.trans {op : Operator} {u v w : Value} (h : SameValue op u v)
    (h' : SameValue op v w) :
    SameValue op u w := by
  unfold SameValue at h h' ⊢
  split at h
  case isTrue hs =>
    rw [if_pos hs] at h' ⊢
    exact fun x => (h x).trans (h' x)
  case isFalse hs =>
    rw [if_neg hs] at h' ⊢
    exact h.trans h'

theorem SameValue.refines {op : Operator} {v w : Value} (h : SameValue op v w) :
    Refines op v w := by
  cases op with
  | add => exact fun x => (h x).mpr
  | supersetOf => exact fun x => (h x).mpr
  | oneOf => exact fun x => (h x).mp
  | subsetOf => exact fun x => (h x).mp
  | default => trivial
  | essential => exact fun hw => (show v = w from h).trans hw
  | value => exact h

/-- A value that `===` compares by its content: no object, and no array with an object or array. -/
def isFlat : Value → Bool
  | leaf _ => true
  | arr items => items.all fun item => match item with
    | leaf _ => true
    | _ => false
  | obj _ => false

theorem strictEquals_iff {v w : Value} : strictEquals v w ↔ v = w ∧ ∃ l, v = leaf l := by
  constructor
  · intro h
    cases v with
    | leaf l => exact ⟨eq_of_strictEquals h, l, rfl⟩
    | arr items => cases h
    | obj members => cases h
  · rintro ⟨rfl, l, rfl⟩
    exact decide_eq_true rfl

theorem zip_all_strictEquals {a : List Value} :
    (¬(a.zip a).any fun (v, w) => !strictEquals v w) ↔ isFlat (arr a) := by
  induction a with
  | nil => exact iff_of_true nofun rfl
  | cons v a ih =>
    have hv : (!strictEquals v v) = true ↔
        ¬(match v with | leaf _ => true | _ => false) = true := by
      cases v with
      | leaf l => simp [strictEquals]
      | arr items => simp [strictEquals]
      | obj members => simp [strictEquals]
    rw [isFlat, List.all_cons, Bool.and_eq_true, List.zip_cons_cons, List.any_cons, Bool.or_eq_true,
      not_or, ih, isFlat]
    exact and_congr (not_congr hv |>.trans not_not) Iff.rfl

/-! ## Sets of strings or numbers -/

theorem leaf_of_isString {v : Value} (h : Operator.isString v) : ∃ l, v = leaf l := by
  unfold Operator.isString at h
  split at h
  · exact ⟨_, rfl⟩
  · cases h

theorem leaf_of_isNumber {v : Value} (h : Operator.isNumber v) : ∃ l, v = leaf l := by
  unfold Operator.isNumber at h
  split at h
  · exact ⟨_, rfl⟩
  · cases h

theorem operatorSchema_of_isSet {op : Operator} (hs : op.isSet) {v : Value} :
    op.operatorSchema v ↔ ∃ items, v = arr items ∧
    (items.all Operator.isString || items.all Operator.isNumber) := by
  have harr : op.operatorSchema v ↔ ∃ items, v = arr items ∧
      (items.all Operator.isString || items.all Operator.isNumber) = true := by
    cases op with
    | default => cases hs
    | essential => cases hs
    | value => cases hs
    | _ =>
      cases v with
      | arr items => exact ⟨fun h => ⟨items, rfl, h⟩, fun ⟨items', heq, h⟩ => by cases heq; exact h⟩
      | leaf l => exact ⟨fun h => (nomatch (show false = true from h)),
          fun ⟨_, heq, _⟩ => nomatch heq⟩
      | obj members => exact ⟨fun h => (nomatch (show false = true from h)),
          fun ⟨_, heq, _⟩ => nomatch heq⟩
  exact harr

/-- Fewer elements are a value of the operator too. -/
theorem operatorSchema_of_subset {op : Operator} (hs : op.isSet) {v : Value}
    (hv : op.operatorSchema v) {items : List Value} (h : ∀ x ∈ items, x ∈ elements v) :
    op.operatorSchema (arr items) := by
  obtain ⟨items', rfl, hitems⟩ := (operatorSchema_of_isSet hs).mp hv
  refine (operatorSchema_of_isSet hs).mpr ⟨items, rfl, ?_⟩
  rw [Bool.or_eq_true, List.all_eq_true, List.all_eq_true] at hitems ⊢
  exact hitems.imp (fun hall x hx => hall x (h x hx)) fun hall x hx => hall x (h x hx)

theorem leaf_of_mem {op : Operator} (hs : op.isSet) {v x : Value} (hv : op.operatorSchema v)
    (hx : x ∈ elements v) :
    ∃ l, x = leaf l := by
  obtain ⟨items, rfl, hitems⟩ := (operatorSchema_of_isSet hs).mp hv
  rw [Bool.or_eq_true, List.all_eq_true, List.all_eq_true] at hitems
  rcases hitems with hall | hall
  · exact leaf_of_isString (hall x hx)
  · exact leaf_of_isNumber (hall x hx)

theorem mem_intersect {op : Operator} (hs : op.isSet) {v w : Value}
    (hw : op.operatorSchema w) {x : Value} :
    x ∈ intersect (elements v) (elements w) ↔ x ∈ elements v ∧ x ∈ elements w := by
  refine ⟨mem_of_mem_intersect, fun ⟨hx, hx'⟩ => ?_⟩
  obtain ⟨l, rfl⟩ := leaf_of_mem hs hw hx'
  exact List.mem_filter.mpr ⟨mem_unique.mpr hx, includes_of_mem (mem_unique.mpr hx')⟩

/-! ## Merging -/

/-- Merging two values, where the result has to be a value of the operator. -/
def mergeValid (path : String) (op : Operator) (v w : Value) : Except PolicyError Value := do
  let r ← mergeOperator path op v w
  if op.operatorSchema r then .ok r else .error (.schema ["Invalid input"])

/-- What two values of an operator are merged to. -/
def merged : Operator → Value → Value → Value
  | .default, v, _ | .value, v, _ => v
  | .add, v, w | .supersetOf, v, w => arr (union (elements v) (elements w))
  | .oneOf, v, w | .subsetOf, v, w => arr (intersect (elements v) (elements w))
  | .essential, v, w => Value.bool (v.truthy || w.truthy)

/-- Whether two values of an operator can be merged. -/
def Mergeable : Operator → Value → Value → Prop
  | .default, v, w | .value, v, w => v = w ∧ isFlat v
  | .add, v, w | .supersetOf, v, w =>
      Operator.add.operatorSchema (arr (union (elements v) (elements w)))
  | .oneOf, v, w => intersect (elements v) (elements w) ≠ []
  | .subsetOf, _, _ | .essential, _, _ => True

theorem operatorSchema_merged {path : String} {op : Operator} {v w r : Value}
    (h : mergeValid path op v w = .ok r) :
    op.operatorSchema r := by
  obtain ⟨r', -, h⟩ := bind_eq_ok.mp h
  split at h
  case isTrue hs =>
    cases h
    exact hs
  case isFalse => cases h

/-- Values that are compared are merged when they are equal and flat. -/
theorem mergeOperator_equal {path : String} {op : Operator}
    (hop : op.mergeStrategy = .operatorValuesEqual) {v w r : Value} (hw : op.operatorSchema w) :
    mergeOperator path op v w = .ok r ↔ (v = w ∧ isFlat v) ∧ r = v := by
  have hscalar : (if strictEquals v w then Except.ok v
      else Except.error (PolicyError.merge "Policy rule values are not equal" path)) =
      .ok r ↔ (v = w ∧ ∃ l, v = leaf l) ∧ r = v := by
    rw [← strictEquals_iff]
    by_cases heq : strictEquals v w
    · rw [if_pos heq, and_iff_right heq]
      exact ⟨fun h => (Except.ok.inj h).symm, fun h => congrArg _ h.symm⟩
    · rw [if_neg heq]
      exact ⟨nofun, fun h => absurd h.1 heq⟩
  have hleaf (hv : ∀ items, v ≠ arr items) : (v = w ∧ ∃ l, v = leaf l) ∧ r = v ↔
      (v = w ∧ isFlat v) ∧ r = v := by
    refine and_congr_left fun _ => and_congr_right fun _ => ?_
    cases v with
    | leaf l => exact iff_of_true ⟨l, rfl⟩ rfl
    | obj members => exact iff_of_false (fun ⟨_, h⟩ => nomatch h) nofun
    | arr items => exact absurd rfl (hv items)
  unfold mergeOperator
  rw [hw, hop]
  simp only [Bool.not_true, Bool.false_eq_true, if_false]
  cases v with
  | leaf l => exact hscalar.trans (hleaf nofun)
  | obj members => exact hscalar.trans (hleaf nofun)
  | arr a =>
    cases w with
    | leaf l => exact iff_of_false nofun fun h => nomatch h.1.1
    | obj members => exact iff_of_false nofun fun h => nomatch h.1.1
    | arr b =>
      dsimp only
      by_cases hab : a.length ≠ b.length ∨ ((a.zip b).any fun (v, w) => !strictEquals v w) = true
      · rw [if_pos hab]
        refine iff_of_false nofun ?_
        rintro ⟨⟨heq, hflat⟩, -⟩
        cases heq
        rcases hab with hl | hany
        · exact hl rfl
        · exact zip_all_strictEquals.mpr hflat hany
      · rw [if_neg hab]
        obtain ⟨hl, hany⟩ := not_or.mp hab
        have heq := eq_of_zip (not_not.mp hl) hany
        subst heq
        rw [and_iff_right ⟨rfl, zip_all_strictEquals.mp hany⟩]
        exact ⟨fun h => (Except.ok.inj h).symm, fun h => congrArg _ h.symm⟩

theorem bool_of_essential {v : Value} (h : Operator.essential.operatorSchema v) :
    ∃ b, v = Value.bool b := by
  unfold Operator.operatorSchema at h
  split at h
  all_goals first | contradiction | exact ⟨_, rfl⟩

theorem ite_ok_iff {α : Type} {c : Prop} [Decidable c] {e : PolicyError} {a r : α} :
    (if c then Except.ok a else Except.error e) = Except.ok r ↔ c ∧ r = a := by
  by_cases hc : c
  · rw [if_pos hc, and_iff_right hc]
    exact ⟨fun h => (Except.ok.inj h).symm, fun h => congrArg _ h.symm⟩
  · rw [if_neg hc]
    exact ⟨nofun, fun h => absurd h.1 hc⟩

/-- When merging two values of an operator succeeds, and with what result. -/
theorem mergeValid_eq_ok {path : String} {op : Operator} {v w r : Value} (hv : op.operatorSchema v)
    (hw : op.operatorSchema w) : mergeValid path op v w = .ok r ↔ Mergeable op v w ∧
    r = merged op v w := by
  have hequal (hop : op.mergeStrategy = .operatorValuesEqual) :
      mergeValid path op v w = .ok r ↔ (v = w ∧ isFlat v) ∧ r = v := by
    unfold mergeValid
    rw [bind_eq_ok]
    constructor
    · rintro ⟨r', hr', h⟩
      obtain ⟨heq, rfl⟩ := (mergeOperator_equal hop hw).mp hr'
      exact ⟨heq, (ite_ok_iff.mp h).2⟩
    · rintro ⟨heq, rfl⟩
      exact ⟨r, (mergeOperator_equal hop hw).mpr ⟨heq, rfl⟩, if_pos hv⟩
  have hset (hs : op.isSet) : ∃ a b, v = arr a ∧ w = arr b := by
    obtain ⟨a, rfl, -⟩ := (operatorSchema_of_isSet hs).mp hv
    obtain ⟨b, rfl, -⟩ := (operatorSchema_of_isSet hs).mp hw
    exact ⟨a, b, rfl, rfl⟩
  have hinter {a b : List Value} (hs : op.isSet) (ha : v = arr a) :
      op.operatorSchema (arr (intersect a b)) := by
    subst ha
    exact operatorSchema_of_subset hs hv fun x hx => (mem_of_mem_intersect hx).1
  cases op with
  | default => exact hequal rfl
  | value => exact hequal rfl
  | add =>
    obtain ⟨a, b, rfl, rfl⟩ := hset rfl
    have hmerge : mergeOperator path .add (arr a) (arr b) = .ok (arr (union a b)) := by
      unfold mergeOperator
      rw [hw]
      rfl
    rw [mergeValid, hmerge, ok_bind]
    exact ite_ok_iff
  | supersetOf =>
    obtain ⟨a, b, rfl, rfl⟩ := hset rfl
    have hmerge : mergeOperator path .supersetOf (arr a) (arr b) = .ok (arr (union a b)) := by
      unfold mergeOperator
      rw [hw]
      rfl
    rw [mergeValid, hmerge, ok_bind]
    exact ite_ok_iff
  | oneOf =>
    obtain ⟨a, b, rfl, rfl⟩ := hset rfl
    have hmerge : mergeOperator path .oneOf (arr a) (arr b) =
        if intersect a b = [] then .error (.merge "Intersection is empty" path)
        else .ok (arr (intersect a b)) := by
      unfold mergeOperator
      rw [hw]
      rfl
    rw [mergeValid, hmerge]
    by_cases hnil : intersect a b = []
    · rw [if_pos hnil, error_bind]
      exact iff_of_false nofun fun h => h.1 hnil
    · rw [if_neg hnil, ok_bind, if_pos (hinter rfl rfl)]
      exact ⟨fun h => ⟨hnil, (Except.ok.inj h).symm⟩, fun h => congrArg _ h.2.symm⟩
  | subsetOf =>
    obtain ⟨a, b, rfl, rfl⟩ := hset rfl
    have hmerge : mergeOperator path .subsetOf (arr a) (arr b) = .ok (arr (intersect a b)) := by
      unfold mergeOperator
      rw [hw]
      rfl
    rw [mergeValid, hmerge, ok_bind, if_pos (hinter rfl rfl)]
    exact ⟨fun h => ⟨trivial, (Except.ok.inj h).symm⟩, fun h => congrArg _ h.2.symm⟩
  | essential =>
    obtain ⟨a, rfl⟩ := bool_of_essential hv
    obtain ⟨b, rfl⟩ := bool_of_essential hw
    have hmerge : mergeOperator path .essential (Value.bool a) (Value.bool b) =
        .ok (Value.bool (a || b)) := rfl
    rw [mergeValid, hmerge, ok_bind,
      if_pos (show Operator.essential.operatorSchema (Value.bool (a || b)) = true from rfl)]
    exact ⟨fun h => ⟨trivial, (Except.ok.inj h).symm⟩, fun h => congrArg _ h.2.symm⟩

/-! ## Associativity -/

/-- Values that an operator takes, equal up to the order of a set. -/
def SameValid (op : Operator) (v w : Value) : Prop :=
  op.operatorSchema v ∧ op.operatorSchema w ∧ SameValue op v w

theorem eq_nil_congr {a b : List Value} (h : ∀ x, x ∈ a ↔ x ∈ b) : a = [] ↔ b = [] := by
  rw [List.eq_nil_iff_forall_not_mem, List.eq_nil_iff_forall_not_mem]
  exact forall_congr' fun x => not_congr (h x)

/-- What can be merged can be merged in another order of the sets. -/
theorem Mergeable.congr {op : Operator} {v v' w w' : Value} (hv : SameValid op v v')
    (hw : SameValid op w w') (h : Mergeable op v w) :
    Mergeable op v' w' ∧ SameValue op (merged op v w) (merged op v' w') := by
  obtain ⟨hv, hv', hsame⟩ := hv
  obtain ⟨hw, hw', hsame'⟩ := hw
  have hunion (hs : op.isSet) (x : Value) : x ∈ union (elements v) (elements w) ↔
      x ∈ union (elements v') (elements w') := by
    rw [SameValue, if_pos hs] at hsame hsame'
    rw [mem_union, mem_union, hsame, hsame']
  have hinter (hs : op.isSet) (x : Value) :
      x ∈ intersect (elements v) (elements w) ↔ x ∈ intersect (elements v') (elements w') := by
    rw [SameValue, if_pos hs] at hsame hsame'
    rw [mem_intersect hs hw, mem_intersect hs hw', hsame, hsame']
  cases op with
  | default =>
    obtain rfl : v = v' := hsame
    obtain rfl : w = w' := hsame'
    exact ⟨h, rfl⟩
  | value =>
    obtain rfl : v = v' := hsame
    obtain rfl : w = w' := hsame'
    exact ⟨h, rfl⟩
  | essential =>
    obtain rfl : v = v' := hsame
    obtain rfl : w = w' := hsame'
    exact ⟨trivial, rfl⟩
  | add => exact ⟨operatorSchema_of_subset rfl h fun x hx => (hunion rfl x).mpr hx, hunion rfl⟩
  | supersetOf =>
    have hadd : Operator.add.operatorSchema (arr (union (elements v') (elements w'))) :=
      operatorSchema_of_subset rfl h fun x hx => (hunion rfl x).mpr hx
    exact ⟨hadd, hunion rfl⟩
  | oneOf => exact ⟨fun hnil => h ((eq_nil_congr (hinter rfl)).mpr hnil), hinter rfl⟩
  | subsetOf => exact ⟨trivial, hinter rfl⟩

/-- What values are merged to is a value of the operator. -/
theorem Mergeable.operatorSchema {op : Operator} {v w : Value} (hv : op.operatorSchema v)
    (h : Mergeable op v w) :
    op.operatorSchema (merged op v w) := by
  cases op with
  | default => exact hv
  | value => exact hv
  | essential => rfl
  | add => exact h
  | supersetOf => exact h
  | oneOf => exact operatorSchema_of_subset rfl hv fun x hx => (mem_of_mem_intersect hx).1
  | subsetOf => exact operatorSchema_of_subset rfl hv fun x hx => (mem_of_mem_intersect hx).1

theorem Mergeable.symm {op : Operator} {v w : Value} (hv : op.operatorSchema v)
    (hw : op.operatorSchema w) (h : Mergeable op v w) :
    Mergeable op w v ∧ SameValue op (merged op v w) (merged op w v) := by
  have hunion (x : Value) : x ∈ union (elements v) (elements w) ↔
      x ∈ union (elements w) (elements v) := by
    rw [mem_union, mem_union, or_comm]
  have hinter (hs : op.isSet) (x : Value) :
      x ∈ intersect (elements v) (elements w) ↔ x ∈ intersect (elements w) (elements v) := by
    rw [mem_intersect hs hw, mem_intersect hs hv, and_comm]
  cases op with
  | default =>
    obtain ⟨rfl, hflat⟩ := h
    exact ⟨⟨rfl, hflat⟩, rfl⟩
  | value =>
    obtain ⟨rfl, hflat⟩ := h
    exact ⟨⟨rfl, hflat⟩, rfl⟩
  | essential =>
    refine ⟨trivial, ?_⟩
    show Value.bool (v.truthy || w.truthy) = Value.bool (w.truthy || v.truthy)
    rw [Bool.or_comm]
  | add => exact ⟨operatorSchema_of_subset rfl h fun x hx => (hunion x).mpr hx, hunion⟩
  | supersetOf =>
    have hadd : Operator.add.operatorSchema (arr (union (elements w) (elements v))) :=
      operatorSchema_of_subset rfl h fun x hx => (hunion x).mpr hx
    exact ⟨hadd, hunion⟩
  | oneOf => exact ⟨fun hnil => h ((eq_nil_congr (hinter rfl)).mpr hnil), hinter rfl⟩
  | subsetOf => exact ⟨trivial, hinter rfl⟩

/-- What is merged from the left can be merged from the right. -/
theorem Mergeable.assoc {op : Operator} {u v w : Value} (hu : op.operatorSchema u)
    (hv : op.operatorSchema v) (hw : op.operatorSchema w) (h : Mergeable op u v)
    (h' : Mergeable op (merged op u v) w) :
    Mergeable op v w ∧ Mergeable op u (merged op v w) ∧
      SameValue op (merged op (merged op u v) w) (merged op u (merged op v w)) := by
  have hunion (x : Value) : x ∈ union (union (elements u) (elements v)) (elements w) ↔
      x ∈ union (elements u) (union (elements v) (elements w)) := by
    rw [mem_union, mem_union, mem_union, mem_union, or_assoc]
  have hinter (hs : op.isSet) (x : Value) :
      x ∈ intersect (intersect (elements u) (elements v)) (elements w) ↔
      x ∈ intersect (elements u) (intersect (elements v) (elements w)) := by
    have hvw : op.operatorSchema (arr (intersect (elements v) (elements w))) :=
      operatorSchema_of_subset hs hv fun x hx => (mem_of_mem_intersect hx).1
    have hright : x ∈ intersect (elements u) (intersect (elements v) (elements w)) ↔
        x ∈ elements u ∧ x ∈ intersect (elements v) (elements w) := mem_intersect (v := u) hs hvw
    have hleft : x ∈ intersect (intersect (elements u) (elements v)) (elements w) ↔
        x ∈ intersect (elements u) (elements v) ∧ x ∈ elements w :=
      mem_intersect (v := arr (intersect (elements u) (elements v))) hs hw
    rw [hright, hleft, mem_intersect hs hv, mem_intersect hs hw, and_assoc]
  have hpart {x : Value} (hx : x ∈ union (elements v) (elements w)) :
      x ∈ union (union (elements u) (elements v)) (elements w) := by
    rw [mem_union] at hx
    rw [mem_union, mem_union]
    exact hx.imp_left Or.inr
  cases op with
  | default =>
    obtain ⟨rfl, hflat⟩ := h
    exact ⟨h', ⟨rfl, hflat⟩, rfl⟩
  | value =>
    obtain ⟨rfl, hflat⟩ := h
    exact ⟨h', ⟨rfl, hflat⟩, rfl⟩
  | essential =>
    refine ⟨trivial, trivial, ?_⟩
    show Value.bool ((u.truthy || v.truthy) || w.truthy) =
      Value.bool (u.truthy || (v.truthy || w.truthy))
    rw [Bool.or_assoc]
  | add =>
    exact ⟨operatorSchema_of_subset rfl h' fun x => hpart,
      operatorSchema_of_subset rfl h' fun x hx => (hunion x).mpr hx, hunion⟩
  | supersetOf =>
    have hvw : Operator.add.operatorSchema (arr (union (elements v) (elements w))) :=
      operatorSchema_of_subset rfl h' fun x => hpart
    have huvw : Operator.add.operatorSchema
        (arr (union (elements u) (union (elements v) (elements w)))) :=
      operatorSchema_of_subset rfl h' fun x hx => (hunion x).mpr hx
    exact ⟨hvw, huvw, hunion⟩
  | oneOf =>
    refine ⟨fun hnil => h' ?_, fun hnil => h' ((eq_nil_congr (hinter rfl)).mpr hnil), hinter rfl⟩
    refine (eq_nil_congr (hinter rfl)).mpr (List.eq_nil_iff_forall_not_mem.mpr fun x hx => ?_)
    have hmem := (mem_of_mem_intersect hx).2
    rw [hnil] at hmem
    cases hmem
  | subsetOf => exact ⟨trivial, trivial, hinter rfl⟩

/-- Merging the values of an operator is associative. -/
theorem mergeValid_assoc (path : String) (op : Operator) :
    IsAssocUpTo (SameValid op) (mergeValid path op) where
  symm := fun _ _ h => ⟨h.2.1, h.1, h.2.2.symm⟩
  trans := fun _ _ _ h h' => ⟨h.1, h'.2.1, h.2.2.trans h'.2.2⟩
  congr := by
    intro v v' w w' hv hw
    refine agree_of_forall (fun r hr => ?_) fun r' hr' => ?_
    · obtain ⟨h, rfl⟩ := (mergeValid_eq_ok hv.1 hw.1).mp hr
      obtain ⟨h', hsame⟩ := h.congr hv hw
      exact ⟨_, (mergeValid_eq_ok hv.2.1 hw.2.1).mpr ⟨h', rfl⟩, h.operatorSchema hv.1,
        h'.operatorSchema hv.2.1, hsame⟩
    · obtain ⟨h', rfl⟩ := (mergeValid_eq_ok hv.2.1 hw.2.1).mp hr'
      obtain ⟨h, -⟩ := h'.congr ⟨hv.2.1, hv.1, hv.2.2.symm⟩ ⟨hw.2.1, hw.1, hw.2.2.symm⟩
      exact ⟨_, (mergeValid_eq_ok hv.1 hw.1).mpr ⟨h, rfl⟩⟩
  assoc := by
    intro u v w hu hv hw
    have hu := hu.1
    have hv := hv.1
    have hw := hw.1
    refine agree_of_forall (fun r hr => ?_) fun r' hr' => ?_
    · obtain ⟨d, hd, hr⟩ := bind_eq_ok.mp hr
      obtain ⟨h, rfl⟩ := (mergeValid_eq_ok hu hv).mp hd
      obtain ⟨h', rfl⟩ := (mergeValid_eq_ok (h.operatorSchema hu) hw).mp hr
      obtain ⟨hvw, huvw, hsame⟩ := h.assoc hu hv hw h'
      have hsvw := hvw.operatorSchema hv
      exact ⟨_, bind_eq_ok.mpr ⟨_, (mergeValid_eq_ok hv hw).mpr ⟨hvw, rfl⟩,
        (mergeValid_eq_ok hu hsvw).mpr ⟨huvw, rfl⟩⟩, h'.operatorSchema (h.operatorSchema hu),
          huvw.operatorSchema hu, hsame⟩
    · obtain ⟨q, hq, hr⟩ := bind_eq_ok.mp hr'
      obtain ⟨h, rfl⟩ := (mergeValid_eq_ok hv hw).mp hq
      have hsvw := h.operatorSchema hv
      obtain ⟨h', rfl⟩ := (mergeValid_eq_ok hu hsvw).mp hr
      -- the other direction is the first one for the values in the opposite order
      obtain ⟨hwv, hsame⟩ := h.symm hv hw
      obtain ⟨h'', -⟩ := (h'.symm hu hsvw).1.congr ⟨hsvw, hwv.operatorSchema hw, hsame⟩
        ⟨hu, hu, SameValue.refl op u⟩
      obtain ⟨hvu, hwvu, -⟩ := hwv.assoc hw hv hu h''
      have hsvu := hvu.operatorSchema hv
      obtain ⟨huv, hsame'⟩ := hvu.symm hv hu
      obtain ⟨huvw, -⟩ := (hwvu.symm hw hsvu).1.congr ⟨hsvu, huv.operatorSchema hu, hsame'⟩
        ⟨hw, hw, SameValue.refl op w⟩
      exact ⟨_, bind_eq_ok.mpr ⟨_, (mergeValid_eq_ok hu hv).mpr ⟨huv, rfl⟩,
        (mergeValid_eq_ok (huv.operatorSchema hu) hw).mpr ⟨huvw, rfl⟩⟩⟩

end IdentityCommon.OpenidFederation
