import IdentityCommon.Openid4vci.ClaimsObject

/-!
# The conversion of claims objects

When the conversion of a claims object returns one description for each claim that has one, or that
has no nested claims, and no others.

## Main definitions

- `IsDescribed`, `HasNestedClaim`, `Describes` — claims, and descriptions of them
- `Converts` — the descriptions that a claims object should be converted to
- `Convertible` — the claims objects that are converted to them

## Main results

- `converts_iff` — the claims objects that are converted as they should be
-/

namespace IdentityCommon.Openid4vci

open Ecma AssocList Value Common

/-- A claim with a boolean `mandatory`, a string `value_type` or an array `display`. -/
def IsDescribed (claim : Value) : Prop :=
  (∃ b, claim.child (.name "mandatory") = some (.leaf (.bool b))) ∨
    (∃ s, claim.child (.name "value_type") = some (str s)) ∨
    ∃ items, claim.child (.name "display") = some (arr items)

def HasNestedClaim (claim : Value) : Prop := ∃ name x, nestedClaim name claim = some x

/-- A claim that should be listed. -/
def IsListed (claim : Value) : Prop := IsDescribed claim ∨ ¬HasNestedClaim claim

/-- The same values, up to the order of their members. -/
def SameDisplay (items items' : List Value) : Prop := List.Forall₂ Same items items'

theorem SameDisplay.trans {a b c : List Value} (h : SameDisplay a b) (h' : SameDisplay b c) :
    SameDisplay a c := by
  refine List.forall₂_iff_get.mpr ⟨h.length_eq.trans h'.length_eq, fun i hi hi'' => ?_⟩
  have hi' : i < b.length := h.length_eq ▸ hi
  exact (h.get hi hi').trans (h'.get hi' hi'')

/-- A description with what a claim has of `mandatory` and `display`. -/
structure Describes (description : ClaimsDescription) (claim : Value) : Prop where
  mandatory : ∀ b, description.mandatory = some b ↔
    claim.child (.name "mandatory") = some (.leaf (.bool b))
  display : ∀ items, claim.child (.name "display") = some (arr items) →
    ∃ items', description.display = some items' ∧ SameDisplay items' items
  noDisplay : (∀ items, claim.child (.name "display") ≠ some (arr items)) →
    description.display = none

/-- The descriptions that a claims object should be converted to. -/
structure Converts (claims : Value) (descriptions : List ClaimsDescription) : Prop where
  complete : ∀ path claim, path ≠ [] → claimAt path claims = some claim → IsListed claim →
    ∃ description ∈ descriptions, description.path = path ∧ Describes description claim
  sound : ∀ description ∈ descriptions, description.path ≠ [] ∧
    ∃ claim, claimAt description.path claims = some claim ∧ IsListed claim
  distinct : (descriptions.map ClaimsDescription.path).Nodup

/-- The claims objects that are converted to the descriptions of their claims. The schema leaves out
a member `__proto__` of the claims object, of the claims in it, and of the elements of their
`display`. -/
structure Convertible (claims : Value) : Prop where
  names : ∀ path claim, path ≠ [] → claimAt path claims = some claim → ∀ name ∈ descriptionNames,
    nestedClaim name claim = none
  ends : ∀ path claim, path ≠ [] → claimAt path claims = some claim → ¬HasNestedClaim claim →
    hasClaimProperties claim = true
  groups : ∀ path claim, path ≠ [] → claimAt path claims = some claim → HasNestedClaim claim →
    hasClaimProperties claim = true → IsDescribed claim
  root : nestedClaim "__proto__" claims = none
  proto : ∀ key claim, nestedClaim key claims = some claim → nestedClaim "__proto__" claim = none
  display : ∀ key claim items, nestedClaim key claims = some claim →
    claim.child (.name "display") = some (arr items) →
    ∀ item ∈ items, item.child (.name "__proto__") = none

/-! ## Claims -/

/-- There is a claim without nested claims at or below every claim. -/
theorem exists_end (claim : Value) : ∃ path x, claimAt path claim = some x ∧ ¬HasNestedClaim x := by
  induction claim using child_induction with
  | h claim ih =>
    by_cases h : HasNestedClaim claim
    · obtain ⟨name, x, hx⟩ := h
      obtain ⟨path, y, hy, hend⟩ := ih _ x (nestedClaim_eq_some.mp hx).1
      exact ⟨name :: path, y, claimAt_cons_eq_some.mpr ⟨x, hx, hy⟩, hend⟩
    · exact ⟨[], claim, rfl, h⟩

theorem hasClaimProperties_of_isDescribed {claim : Value} (h : IsDescribed claim) :
    hasClaimProperties claim = true := by
  refine hasClaimProperties_iff.mpr ?_
  rcases h with ⟨b, hb⟩ | ⟨s, hs⟩ | ⟨items, hitems⟩
  · exact ⟨"mandatory", by decide, by simp [hb]⟩
  · exact ⟨"value_type", by decide, by simp [hs]⟩
  · exact ⟨"display", by decide, by simp [hitems]⟩

theorem get_description {name : String} (hname : name ∈ descriptionNames) (claim : Value)
    (hobject : claim.isObject = true) :
    claim.get name = (claim.child (.name name)).getD undefined := by
  have hinherited : inherited name = undefined := by
    simp only [descriptionNames, List.mem_cons, List.not_mem_nil, or_false] at hname
    rcases hname with rfl | rfl | rfl <;> rfl
  cases claim with
  | leaf l =>
    have hne : name ≠ "__proto__" := by
      rintro rfl
      exact absurd hname (by decide)
    cases l <;> simp_all [Value.get, isObject]
  | arr items => cases hobject
  | obj members => rw [Value.get, hinherited, child_name_obj]

/-- The description of a claim describes it. -/
theorem describes_claimDescription {claim : Value} (hobject : claim.isObject = true)
    (path : List String) :
    Describes (claimDescription path claim) claim where
  mandatory b := by
    rw [claimDescription, get_description (by decide) claim hobject]
    cases claim.child (.name "mandatory") with
    | none => simp
    | some x => cases x with
      | leaf l => cases l <;> simp
      | arr items => simp
      | obj members => simp
  display items h := by
    refine ⟨items, ?_, List.forall₂_same.mpr fun x _ => Same.refl x⟩
    unfold claimDescription
    rw [@get_description "display" (by decide) claim hobject, h]
    rfl
  noDisplay h := by
    unfold claimDescription
    rw [@get_description "display" (by decide) claim hobject]
    cases hx : claim.child (.name "display") with
    | none => rfl
    | some x => cases x with
      | leaf l => rfl
      | arr items => exact absurd hx (h items)
      | obj members => rfl

/-! ## The schema of a description -/

section

variable {v w : Value}

theorem nodup_claimsDescriptionShape : (keys claimsDescriptionShape).Nodup := by
  decide

theorem child_zClaimsDescription {name : String} (hname : name ∉ descriptionNames)
    (hproto : name ≠ "__proto__") (h : zClaimsDescriptionDraft14 v = some w) :
    w.child (.name name) = v.child (.name name) := by
  have hkey : name ∉ keys claimsDescriptionShape := hname
  exact child_other_looseObject hkey hproto h

theorem child_proto_zClaimsDescription (h : zClaimsDescriptionDraft14 v = some w) :
    w.child (.name "__proto__") = none :=
  child_proto_looseObject (by decide) h

theorem child_mandatory_zClaimsDescription (h : zClaimsDescriptionDraft14 v = some w) :
    w.child (.name "mandatory") = v.child (.name "mandatory") :=
  child_looseObject nodup_claimsDescriptionShape
    (by simp [claimsDescriptionShape]) exact_zBoolean.keeps.optional h

theorem child_value_type_zClaimsDescription (h : zClaimsDescriptionDraft14 v = some w) :
    w.child (.name "value_type") = v.child (.name "value_type") := by
  have hkeeps : Keeps (optional zString) := (keeps_textWhere _).optional
  exact child_looseObject nodup_claimsDescriptionShape (by simp [claimsDescriptionShape]) hkeeps h

theorem child_display_zClaimsDescription (h : zClaimsDescriptionDraft14 v = some w) :
    Option.Rel (fun x y => optional (array zClaimDisplay) x = some y) (v.child (.name "display"))
      (w.child (.name "display")) :=
  child_optional_looseObject nodup_claimsDescriptionShape (by simp [claimsDescriptionShape]) h

theorem hasClaimProperties_zClaimsDescription (h : zClaimsDescriptionDraft14 v = some w) :
    hasClaimProperties w = true ↔ hasClaimProperties v = true := by
  rw [hasClaimProperties_iff, hasClaimProperties_iff]
  refine exists_congr fun name => and_congr_right fun hname => ?_
  have hname' : name = "mandatory" ∨ name = "value_type" ∨ name = "display" := by
    simpa [descriptionNames] using hname
  rcases hname' with rfl | rfl | rfl
  · rw [child_mandatory_zClaimsDescription h]
  · rw [child_value_type_zClaimsDescription h]
  · exact (rel_none_iff (child_display_zClaimsDescription h)).not

/-- A claim without the members of a description is accepted as a claim with an empty one. -/
theorem zClaimsDescription_of_absent {members : List (String × Value)}
    (h : ∀ name ∈ descriptionNames, members.lookup name = none) :
    ∃ w, zClaimsDescriptionDraft14 (obj members) = some w := by
  refine Option.isSome_iff_exists.mp (isSome_looseObject fun s hs => ?_)
  have hlookup : members.lookup s.1 = none := h s.1 (mem_keys_of_mem hs)
  rw [hlookup, Option.getD_none]
  have hs' : s = ("mandatory", optional zBoolean) ∨ s = ("value_type", optional zString) ∨
      s = ("display", optional (array zClaimDisplay)) := by
    simpa [claimsDescriptionShape] using hs
  rcases hs' with rfl | rfl | rfl <;> rfl

theorem same_of_child {members members' : List (String × Value)}
    (h : ∀ key, members.lookup key = members'.lookup key) : Same (obj members) (obj members') := by
  intro path
  cases path with
  | nil => rfl
  | cons k path =>
    rw [follow_cons, follow_cons]
    cases k with
    | name key => rw [child_name_obj, child_name_obj, h]
    | index n => rw [child_index_obj, child_index_obj]

theorem same_zClaimDisplay (hproto : v.child (.name "__proto__") = none)
    (h : zClaimDisplay v = some w) :
    w.Same v := by
  have hn : (keys [("name", optional zString), ("locale", optional zString)]).Nodup := by decide
  have hkeeps : Keeps (optional zString) := (keeps_textWhere _).optional
  have hchild : ∀ key, w.child (.name key) = v.child (.name key) := by
    intro key
    by_cases hkey : key = "__proto__"
    · subst hkey
      rw [hproto]
      exact child_proto_looseObject (by decide) h
    · by_cases hname : key = "name"
      · subst hname
        exact child_looseObject hn (by simp) hkeeps h
      · by_cases hlocale : key = "locale"
        · subst hlocale
          exact child_looseObject hn (by simp) hkeeps h
        · exact child_other_looseObject (by simp [hname, hlocale]) hkey h
  obtain ⟨members, known, rfl, -, rfl⟩ := looseObject_eq_some h
  exact same_of_child hchild

/-- The description of what the schema returns for a claim describes the claim. -/
theorem describes_of_zClaimsDescription (h : zClaimsDescriptionDraft14 v = some w)
    (hdisplay : ∀ items, v.child (.name "display") = some (arr items) →
      ∀ item ∈ items, item.child (.name "__proto__") = none) (path : List String) :
    Describes (claimDescription path w) v := by
  have hobject : w.isObject = true := by
    obtain ⟨members, known, -, -, rfl⟩ := looseObject_eq_some h
    rfl
  have hw := describes_claimDescription hobject path
  have hrel := child_display_zClaimsDescription h
  refine ⟨fun b => ?_, fun items hitems => ?_, fun hnone => hw.noDisplay fun items hitems => ?_⟩
  · rw [hw.mandatory, child_mandatory_zClaimsDescription h]
  · obtain ⟨y, hy, hxy⟩ := exists_of_rel_left hrel hitems
    have hxy : array zClaimDisplay (arr items) = some y := hxy
    obtain ⟨_, items', heq, rfl, hall⟩ := array_eq_some hxy
    cases heq
    have hsame : SameDisplay items' items := by
      refine List.Forall₂.flip (List.forall₂_iff_get.mpr ⟨hall.length_eq, fun i hi hi' => ?_⟩)
      exact same_zClaimDisplay (hdisplay items hitems _ (List.get_mem _ _)) (hall.get hi hi')
    obtain ⟨items'', hitems'', hsame'⟩ := hw.display items' hy
    exact ⟨items'', hitems'', hsame'.trans hsame⟩
  · obtain ⟨x, hx, hxy⟩ := exists_of_rel_right hrel hitems
    by_cases hundefined : x = undefined
    · subst hundefined
      cases hxy
    · rw [optional_of_ne hundefined] at hxy
      obtain ⟨items', _, rfl, -, -⟩ := array_eq_some hxy
      exact hnone items' hx

end

/-! ## The schema of a claims object -/

theorem zClaimsDraft14_eq_some {v w : Value} (h : zClaimsDraft14 v = some w) :
    ∃ members members', v = obj members ∧ w = obj members' ∧
    parseClaims members = some members' := by
  cases v with
  | leaf l =>
    rw [zClaimsDraft14] at h
    · cases h
    · exact nofun
  | arr items =>
    rw [zClaimsDraft14] at h
    · cases h
    · exact nofun
  | obj members =>
    rw [zClaimsDraft14] at h
    obtain ⟨members', hmembers, rfl⟩ := Option.map_eq_some_iff.mp h
    exact ⟨members, members', rfl, rfl, hmembers⟩

/-- A claim is an object, and returned as one. -/
theorem isObject_of_zClaim {v w : Value}
    (h : (zClaimsDescriptionDraft14 v).or (zClaimsDraft14 v) = some w) :
    v.isObject = true ∧ w.isObject = true := by
  rcases Option.or_eq_some_iff.mp h with h | ⟨-, h⟩
  · obtain ⟨_, _, rfl, -, rfl⟩ := looseObject_eq_some h
    exact ⟨rfl, rfl⟩
  · obtain ⟨_, _, rfl, rfl, -⟩ := zClaimsDraft14_eq_some h
    exact ⟨rfl, rfl⟩

theorem keepsDistinct_zClaimsDescription : KeepsDistinct zClaimsDescriptionDraft14 := by
  have hdisplay : KeepsDistinct zClaimDisplay := by
    refine KeepsDistinct.looseObject (by decide) fun s hs => ?_
    rcases List.mem_pair.mp hs with rfl | rfl
    · exact (keepsDistinct_textWhere _).optional
    · exact (keepsDistinct_textWhere _).optional
  refine KeepsDistinct.looseObject nodup_claimsDescriptionShape fun s hs => ?_
  have hs' : s = ("mandatory", optional zBoolean) ∨ s = ("value_type", optional zString) ∨
      s = ("display", optional (array zClaimDisplay)) := by
    simpa [claimsDescriptionShape] using hs
  rcases hs' with rfl | rfl | rfl
  · exact keepsDistinct_zBoolean.optional
  · exact (keepsDistinct_textWhere _).optional
  · exact hdisplay.array.optional

theorem keepsDistinct_zClaims : KeepsDistinct zClaimsDraft14 := by
  intro v
  induction v with
  | leaf l => exact fun w _ h => by obtain ⟨_, _, heq, -, -⟩ := zClaimsDraft14_eq_some h; cases heq
  | arr items =>
    exact fun w _ h => by obtain ⟨_, _, heq, -, -⟩ := zClaimsDraft14_eq_some h; cases heq
  | obj members ih =>
    intro w hv h
    obtain ⟨_, members', heq, rfl, hmembers⟩ := zClaimsDraft14_eq_some h
    cases heq
    cases hv with
    | obj hnodup hall =>
      have hnodup' : (keys members').Nodup := by
        rw [keys_parseClaims hmembers]
        exact hnodup.filter _
      refine .obj hnodup' fun m hm => ?_
      have hkey : m.1 ≠ "__proto__" := by
        have hmem := mem_keys_of_mem hm
        rw [keys_parseClaims hmembers, List.mem_filter] at hmem
        exact of_decide_eq_true hmem.2
      obtain ⟨value, hvalue, hclaim⟩ :=
        exists_of_rel_right (lookup_parseClaims hmembers hkey) (lookup_of_mem hnodup' hm)
      have hmem := mem_of_lookup hvalue
      rcases Option.or_eq_some_iff.mp hclaim with h | ⟨-, h⟩
      · exact keepsDistinct_zClaimsDescription _ _ (hall _ hmem) h
      · exact ih _ hmem _ (hall _ hmem) h

/-! ## The descriptions of a claims object -/

section

variable {members members' : List (String × Value)} (hdistinct : (obj members).Distinct)
  (hparse : parseClaims members = some members')

include hparse

theorem lookup_proto_of_parseClaims : members'.lookup "__proto__" = none := by
  refine lookup_eq_none_iff.mpr fun hmem => ?_
  rw [keys_parseClaims hparse, List.mem_filter] at hmem
  exact of_decide_eq_true hmem.2 rfl

/-- Every claim in a claims object is found in what is returned, and every claim in that is one. -/
theorem lookup_claim {key : String} (hkey : key ≠ "__proto__") :
    Option.Rel (fun v w => (zClaimsDescriptionDraft14 v).or (zClaimsDraft14 v) = some w)
      (nestedClaim key (obj members)) (members'.lookup key) := by
  have hrel := lookup_parseClaims hparse hkey
  have hall : nestedClaim key (obj members) = members.lookup key := by
    rw [nestedClaim, child_name_obj]
    cases hv : members.lookup key with
    | none => rfl
    | some v =>
      obtain ⟨w, -, hw⟩ := exists_of_rel_left hrel hv
      rw [Option.filter_some, if_pos (isObject_of_zClaim hw).1]
  rw [hall]
  exact hrel

/-- A claim whose nested claims are not named like part of a description is accepted with its
description. -/
theorem lookup_described {key : String} {v : Value} (hv : nestedClaim key (obj members) = some v)
    (hkey : key ≠ "__proto__") (hnames : ∀ name ∈ descriptionNames, nestedClaim name v = none) :
    ∃ w, zClaimsDescriptionDraft14 v = some w ∧ members'.lookup key = some w := by
  obtain ⟨w, hw, hclaim⟩ := exists_of_rel_left (lookup_claim hparse hkey) hv
  rcases Option.or_eq_some_iff.mp hclaim with h | ⟨hnone, h⟩
  · exact ⟨w, h, hw⟩
  · exfalso
    obtain ⟨ms, ms', rfl, -, hms⟩ := zClaimsDraft14_eq_some h
    have habsent : ∀ name ∈ descriptionNames, ms.lookup name = none := by
      intro name hname
      have hproto : name ≠ "__proto__" := by
        rintro rfl
        exact absurd hname (by decide)
      rw [Option.eq_none_iff_forall_ne_some]
      intro x hx
      obtain ⟨_, -, hobject⟩ := exists_of_rel_left (lookup_parseClaims hms hproto) hx
      have hnested : nestedClaim name (obj ms) = some x :=
        nestedClaim_eq_some.mpr ⟨hx, (isObject_of_zClaim hobject).1⟩
      rw [hnames name hname] at hnested
      cases hnested
    obtain ⟨w', hw'⟩ := zClaimsDescription_of_absent habsent
    rw [hw'] at hnone
    cases hnone

include hdistinct

theorem distinct_of_parseClaims : (obj members').Distinct := by
  have h : zClaimsDraft14 (obj members) = some (obj members') := by rw [zClaimsDraft14, hparse]; rfl
  exact keepsDistinct_zClaims _ _ hdistinct h

theorem mem_descriptions {description : ClaimsDescription} :
    description ∈ processClaimsObject (fun _ => true) [] members' ↔
      ∃ key value path claim, members'.lookup key = some value ∧
      (∀ name ∈ path, name ∉ descriptionNames) ∧
        claimAt path value = some claim ∧ hasClaimProperties claim = true ∧
        description = claimDescription (key :: path) claim := by
  have hdata := distinct_of_parseClaims hdistinct hparse
  cases hdata with
  | obj hnodup hall =>
    rw [processClaimsObject_eq_flatMap, List.mem_flatMap]
    constructor
    · rintro ⟨m, hm, h⟩
      have hm := List.mem_of_mem_filter hm
      have hobject : m.2.isObject = true := by
        by_contra hobject
        rw [processClaim_of_not_isObject hobject] at h
        cases h
      obtain ⟨path, claim, hpath, hclaim, hproperties, rfl⟩ :=
        (mem_processClaim (hall m hm) hobject).mp h
      exact ⟨m.1, m.2, path, claim, lookup_of_mem hnodup hm, hpath, hclaim, hproperties, rfl⟩
    · rintro ⟨key, value, path, claim, hlookup, hpath, hclaim, hproperties, rfl⟩
      have hm := mem_of_lookup hlookup
      have hkey : key ≠ "__proto__" := by
        rintro rfl
        rw [lookup_proto_of_parseClaims hparse] at hlookup
        cases hlookup
      obtain ⟨v, -, hv⟩ := exists_of_rel_right (lookup_parseClaims hparse hkey) hlookup
      have hobject := (isObject_of_zClaim hv).2
      exact ⟨(key, value), List.mem_filter.mpr ⟨hm, rfl⟩,
        (mem_processClaim (hall _ hm) hobject).mpr ⟨path, claim, hpath, hclaim, hproperties, rfl⟩⟩

theorem nodup_descriptions :
    ((processClaimsObject (fun _ => true) [] members').map ClaimsDescription.path).Nodup := by
  have hdata := distinct_of_parseClaims hdistinct hparse
  cases hdata with
  | obj hnodup hall =>
    rw [processClaimsObject_eq_flatMap, List.filter_eq_self.mpr fun _ _ => rfl]
    exact nodup_flatMap_processClaim hnodup hall [] fun m hm => nodup_processClaim (hall m hm) _ _

end

/-- The claims below a claim are those below what is returned for it. -/
theorem claimAt_zClaimsDescription {v w : Value} (h : zClaimsDescriptionDraft14 v = some w)
    (hproto : nestedClaim "__proto__" v = none) {path : List String}
    (hpath : ∀ name ∈ path, name ∉ descriptionNames) :
    Option.Rel (fun claim claim' => claim' = claim ∨ claim = v ∧ claim' = w ∧ path = [])
      (claimAt path v)
      (claimAt path w) := by
  cases path with
  | nil => exact .some (.inr ⟨rfl, rfl, rfl⟩)
  | cons name path =>
    have hnested : nestedClaim name w = nestedClaim name v := by
      by_cases hname : name = "__proto__"
      · subst hname
        rw [hproto, nestedClaim, child_proto_zClaimsDescription h]
        rfl
      · exact nestedClaim_congr (child_zClaimsDescription (hpath name List.mem_cons_self) hname h)
    rw [claimAt, claimAt, hnested]
    cases (nestedClaim name v).bind (claimAt path) with
    | none => exact .none
    | some x => exact .some (.inl rfl)

/-- The path of a claim below a claim has no name of a description member where no nested claim has
one. -/
theorem not_mem_of_claimAt {claims : Value}
    (hnames : ∀ path claim, path ≠ [] → claimAt path claims = some claim →
      ∀ name ∈ descriptionNames, nestedClaim name claim = none)
    {key : String} {path : List String} {claim : Value}
    (h : claimAt (key :: path) claims = some claim) :
    ∀ name ∈ path, name ∉ descriptionNames := by
  intro name hmem hname
  obtain ⟨before, after, rfl⟩ := List.append_of_mem hmem
  rw [← List.cons_append, claimAt_append] at h
  obtain ⟨x, hx, hrest⟩ := Option.bind_eq_some_iff.mp h
  obtain ⟨y, hy, -⟩ := claimAt_cons_eq_some.mp hrest
  rw [hnames _ x (List.cons_ne_nil _ _) hx name hname] at hy
  cases hy

theorem hasClaimProperties_of_rel {v w claim claim' : Value} {path : List String}
    (h : zClaimsDescriptionDraft14 v = some w)
    (hrel : claim' = claim ∨ claim = v ∧ claim' = w ∧ path = []) :
    hasClaimProperties claim' = true ↔ hasClaimProperties claim = true := by
  rcases hrel with rfl | ⟨rfl, rfl, -⟩
  · exact Iff.rfl
  · exact hasClaimProperties_zClaimsDescription h

theorem isObject_of_claimAt {path : List String} (hpath : path ≠ []) {claims claim : Value}
    (h : claimAt path claims = some claim) : claim.isObject = true := by
  induction path generalizing claims with
  | nil => exact absurd rfl hpath
  | cons name path ih =>
    obtain ⟨x, hx, h⟩ := claimAt_cons_eq_some.mp h
    cases path with
    | nil =>
      cases h
      exact (nestedClaim_eq_some.mp hx).2
    | cons name' path => exact ih (List.cons_ne_nil _ _) h

section

variable {members members' : List (String × Value)} (hdistinct : (obj members).Distinct)
  (hparse : parseClaims members = some members')

include hdistinct hparse

theorem Convertible.converts (h : Convertible (obj members)) :
    Converts (obj members) (processClaimsObject (fun _ => true) [] members') where
  complete := by
    intro path claim hpath hclaim hlisted
    cases path with
    | nil => exact absurd rfl hpath
    | cons key path =>
      obtain ⟨v, hv, hbelow⟩ := claimAt_cons_eq_some.mp hclaim
      have hkey : key ≠ "__proto__" := by
        rintro rfl
        rw [h.root] at hv
        cases hv
      have hat : claimAt [key] (obj members) = some v := claimAt_cons_eq_some.mpr ⟨v, hv, rfl⟩
      obtain ⟨w, hw, hlookup⟩ :=
        lookup_described hparse hv hkey (h.names [key] v (List.cons_ne_nil _ _) hat)
      have hnames := not_mem_of_claimAt h.names hclaim
      obtain ⟨claim', hclaim', hrel⟩ :=
        exists_of_rel_left (claimAt_zClaimsDescription hw (h.proto key v hv) hnames) hbelow
      have hproperties : hasClaimProperties claim = true := by
        rcases hlisted with hdescribed | hend
        · exact hasClaimProperties_of_isDescribed hdescribed
        · exact h.ends _ claim hpath hclaim hend
      refine ⟨claimDescription (key :: path) claim', (mem_descriptions hdistinct hparse).mpr
        ⟨key, w, path, claim', hlookup, hnames, hclaim',
          (hasClaimProperties_of_rel hw hrel).mpr hproperties, rfl⟩,
        rfl, ?_⟩
      rcases hrel with rfl | ⟨rfl, rfl, -⟩
      · exact describes_claimDescription (isObject_of_claimAt hpath hclaim) _
      · exact describes_of_zClaimsDescription hw
          (fun items hitems => h.display key claim items hv hitems) _
  sound := by
    intro description hmem
    obtain ⟨key, w, path, claim', hlookup, hnames, hclaim', hproperties, rfl⟩ :=
      (mem_descriptions hdistinct hparse).mp hmem
    have hkey : key ≠ "__proto__" := by
      rintro rfl
      rw [lookup_proto_of_parseClaims hparse] at hlookup
      cases hlookup
    obtain ⟨v, hv, -⟩ := exists_of_rel_right (lookup_claim hparse hkey) hlookup
    have hat : claimAt [key] (obj members) = some v := claimAt_cons_eq_some.mpr ⟨v, hv, rfl⟩
    obtain ⟨w', hw, hlookup'⟩ :=
      lookup_described hparse hv hkey (h.names [key] v (List.cons_ne_nil _ _) hat)
    obtain rfl : w = w' := Option.some.inj (hlookup.symm.trans hlookup')
    obtain ⟨claim, hbelow, hrel⟩ :=
      exists_of_rel_right (claimAt_zClaimsDescription hw (h.proto key v hv) hnames) hclaim'
    have hclaim : claimAt (key :: path) (obj members) = some claim :=
      claimAt_cons_eq_some.mpr ⟨v, hv, hbelow⟩
    have hproperties' := (hasClaimProperties_of_rel hw hrel).mp hproperties
    refine ⟨List.cons_ne_nil _ _, claim, hclaim, ?_⟩
    by_cases hnested : HasNestedClaim claim
    · exact .inl (h.groups _ claim (List.cons_ne_nil _ _) hclaim hnested hproperties')
    · exact .inr hnested
  distinct := nodup_descriptions hdistinct hparse

/-- There is a description of a claim at or below every claim. -/
theorem Converts.below
    (h : Converts (obj members) (processClaimsObject (fun _ => true) [] members'))
    {key : String} {path : List String} {claim : Value}
    (hclaim : claimAt (key :: path) (obj members) = some claim) :
    ∃ value rest claim', members'.lookup key = some value ∧
    (∀ name ∈ path ++ rest, name ∉ descriptionNames) ∧
      claimAt (path ++ rest) value = some claim' := by
  obtain ⟨rest, x, hx, hend⟩ := exists_end claim
  have hat : claimAt (key :: (path ++ rest)) (obj members) = some x := by
    rw [← List.cons_append, claimAt_append, hclaim]
    exact hx
  obtain ⟨description, hmem, hpath, -⟩ := h.complete _ x (List.cons_ne_nil _ _) hat (.inr hend)
  obtain ⟨key', value, path', claim', hlookup, hnames, hclaim', -, rfl⟩ :=
    (mem_descriptions hdistinct hparse).mp hmem
  obtain ⟨rfl, rfl⟩ := List.cons.inj hpath
  exact ⟨value, rest, claim', hlookup, hnames, hclaim'⟩

theorem Converts.names
    (h : Converts (obj members) (processClaimsObject (fun _ => true) [] members'))
    {path : List String} {claim : Value} (hpath : path ≠ [])
    (hclaim : claimAt path (obj members) = some claim) {name : String}
    (hname : name ∈ descriptionNames) : nestedClaim name claim = none := by
  rw [Option.eq_none_iff_forall_ne_some]
  intro x hx
  cases path with
  | nil => exact hpath rfl
  | cons key path =>
    have hat : claimAt (key :: (path ++ [name])) (obj members) = some x := by
      rw [← List.cons_append, claimAt_append, hclaim]
      exact claimAt_cons_eq_some.mpr ⟨x, hx, rfl⟩
    obtain ⟨_, rest, _, -, hnames, -⟩ := h.below hdistinct hparse hat
    exact hnames name (by simp) hname

theorem Converts.root
    (h : Converts (obj members) (processClaimsObject (fun _ => true) [] members')) :
    nestedClaim "__proto__" (obj members) = none := by
  rw [Option.eq_none_iff_forall_ne_some]
  intro x hx
  have hat : claimAt ["__proto__"] (obj members) = some x := claimAt_cons_eq_some.mpr ⟨x, hx, rfl⟩
  obtain ⟨value, _, _, hlookup, -, -⟩ := h.below hdistinct hparse hat
  rw [lookup_proto_of_parseClaims hparse] at hlookup
  cases hlookup

/-- A claim in the claims object is accepted with its description. -/
theorem Converts.lookup
    (h : Converts (obj members) (processClaimsObject (fun _ => true) [] members'))
    {key : String} {v : Value} (hv : nestedClaim key (obj members) = some v) :
    ∃ w, zClaimsDescriptionDraft14 v = some w ∧ members'.lookup key = some w := by
  have hkey : key ≠ "__proto__" := by
    rintro rfl
    rw [h.root hdistinct hparse] at hv
    cases hv
  have hat : claimAt [key] (obj members) = some v := claimAt_cons_eq_some.mpr ⟨v, hv, rfl⟩
  exact lookup_described hparse hv hkey fun name hname => h.names hdistinct hparse
    (List.cons_ne_nil _ _) hat hname

theorem Converts.proto
    (h : Converts (obj members) (processClaimsObject (fun _ => true) [] members'))
    {key : String} {v : Value} (hv : nestedClaim key (obj members) = some v) :
    nestedClaim "__proto__" v = none := by
  rw [Option.eq_none_iff_forall_ne_some]
  intro x hx
  have hat : claimAt [key, "__proto__"] (obj members) = some x :=
    claimAt_cons_eq_some.mpr ⟨v, hv, claimAt_cons_eq_some.mpr ⟨x, hx, rfl⟩⟩
  obtain ⟨value, rest, claim', hlookup, -, hclaim'⟩ := h.below hdistinct hparse hat
  obtain ⟨w, hw, hlookup'⟩ := h.lookup hdistinct hparse hv
  obtain rfl : value = w := Option.some.inj (hlookup.symm.trans hlookup')
  obtain ⟨y, hy, -⟩ := claimAt_cons_eq_some.mp hclaim'
  have hchild := (nestedClaim_eq_some.mp hy).1
  rw [child_proto_zClaimsDescription hw] at hchild
  cases hchild

theorem Converts.display
    (h : Converts (obj members) (processClaimsObject (fun _ => true) [] members'))
    {key : String} {v : Value} (hv : nestedClaim key (obj members) = some v) {items : List Value}
    (hitems : v.child (.name "display") = some (arr items)) {item : Value} (hitem : item ∈ items) :
    item.child (.name "__proto__") = none := by
  have hat : claimAt [key] (obj members) = some v := claimAt_cons_eq_some.mpr ⟨v, hv, rfl⟩
  obtain ⟨description, hmem, hpath, hdescribes⟩ :=
    h.complete [key] v (List.cons_ne_nil _ _) hat (.inl (.inr (.inr ⟨items, hitems⟩)))
  obtain ⟨key', w, path', claim', hlookup, -, hclaim', -, rfl⟩ :=
    (mem_descriptions hdistinct hparse).mp hmem
  obtain ⟨rfl, rfl⟩ := List.cons.inj hpath
  cases hclaim'
  obtain ⟨w', hw, hlookup'⟩ := h.lookup hdistinct hparse hv
  obtain rfl : w = w' := Option.some.inj (hlookup.symm.trans hlookup')
  -- The elements of the result have no such member, and those of the claim are the same.
  obtain ⟨y, hy, hxy⟩ := exists_of_rel_left (child_display_zClaimsDescription hw) hitems
  have hxy : array zClaimDisplay (arr items) = some y := hxy
  obtain ⟨_, parsed, heq, rfl, hparsed⟩ := array_eq_some hxy
  cases heq
  have hobject : w.isObject = true := by
    obtain ⟨_, _, -, -, rfl⟩ := looseObject_eq_some hw
    rfl
  obtain ⟨shown, hshown, hsame⟩ := hdescribes.display items hitems
  obtain ⟨shown', hshown', hsame'⟩ := (describes_claimDescription hobject [key']).display parsed hy
  obtain rfl : shown = shown' := Option.some.inj (hshown.symm.trans hshown')
  obtain ⟨i, hi, rfl⟩ := List.getElem_of_mem hitem
  have hi' : i < shown.length := hsame.length_eq.symm ▸ hi
  have hi'' : i < parsed.length := hparsed.length_eq ▸ hi
  have hnone : (parsed[i]).child (.name "__proto__") = none :=
    child_proto_looseObject (by decide) (hparsed.get hi hi'')
  have hpositions := ((hsame.get hi' hi).symm.trans (hsame'.get hi' hi'')) [.name "__proto__"]
  rw [List.get_eq_getElem, List.get_eq_getElem, follow_cons, follow_cons, hnone] at hpositions
  cases hchild : (items[i]).child (.name "__proto__") with
  | none => rfl
  | some x =>
    rw [hchild] at hpositions
    cases hpositions

/-- A claim that is listed has claim properties, and is listed where it has them. -/
theorem Converts.listed_iff
    (h : Converts (obj members) (processClaimsObject (fun _ => true) [] members'))
    {path : List String} {claim : Value} (hpath : path ≠ [])
    (hclaim : claimAt path (obj members) = some claim) :
    hasClaimProperties claim = true ↔ IsListed claim := by
  cases path with
  | nil => exact absurd rfl hpath
  | cons key path =>
    obtain ⟨v, hv, hbelow⟩ := claimAt_cons_eq_some.mp hclaim
    obtain ⟨w, hw, hlookup⟩ := h.lookup hdistinct hparse hv
    have hnames := not_mem_of_claimAt
      (fun _ _ hpath hclaim _ hname => h.names hdistinct hparse hpath hclaim hname) hclaim
    obtain ⟨claim', hclaim', hrel⟩ :=
      exists_of_rel_left (claimAt_zClaimsDescription hw (h.proto hdistinct hparse hv) hnames) hbelow
    rw [← hasClaimProperties_of_rel hw hrel]
    constructor
    · intro hproperties
      obtain ⟨-, claim'', hclaim'', hlisted⟩ := h.sound _ ((mem_descriptions hdistinct hparse).mpr
        ⟨key, w, path, claim', hlookup, hnames, hclaim', hproperties, rfl⟩)
      obtain rfl : claim = claim'' := Option.some.inj (hclaim.symm.trans hclaim'')
      exact hlisted
    · intro hlisted
      obtain ⟨description, hmem, heq, -⟩ := h.complete _ claim hpath hclaim hlisted
      obtain ⟨key', w', path', claim'', hlookup', -, hclaim'', hproperties, rfl⟩ :=
        (mem_descriptions hdistinct hparse).mp hmem
      obtain ⟨rfl, rfl⟩ := List.cons.inj heq
      obtain rfl : w = w' := Option.some.inj (hlookup.symm.trans hlookup')
      obtain rfl : claim' = claim'' := Option.some.inj (hclaim'.symm.trans hclaim'')
      exact hproperties

theorem converts_iff : Converts (obj members) (processClaimsObject (fun _ => true) [] members') ↔
    Convertible (obj members) := by
  constructor
  · intro h
    exact {
      names := fun path claim hpath hclaim name hname => h.names hdistinct hparse hpath hclaim hname
      ends := fun path claim hpath hclaim hend =>
        (h.listed_iff hdistinct hparse hpath hclaim).mpr (.inr hend)
      groups := fun path claim hpath hclaim hnested hproperties =>
        ((h.listed_iff hdistinct hparse hpath hclaim).mp hproperties).resolve_right
          fun hend => hend hnested
      root := h.root hdistinct hparse
      proto := fun key claim hv => h.proto hdistinct hparse hv
      display := fun key claim items hv hitems item hitem =>
        h.display hdistinct hparse hv hitems hitem }
  · exact fun h => h.converts hdistinct hparse

end

/-! ## The conversion -/

theorem claimsObjectToClaimsArray_iff (claims : Value) (hdistinct : claims.Distinct)
    (haccepted : (zClaimsDraft14 claims).isSome = true) :
    (∃ descriptions, claimsObjectToClaimsArray claims = some descriptions ∧
      Converts claims descriptions) ↔
      Convertible claims := by
  obtain ⟨data, hdata⟩ := Option.isSome_iff_exists.mp haccepted
  obtain ⟨members, members', rfl, rfl, hparse⟩ := zClaimsDraft14_eq_some hdata
  have hresult : claimsObjectToClaimsArray (obj members) =
      some (processClaimsObject (fun _ => true) [] members') := by
    rw [claimsObjectToClaimsArray, hdata]
    rfl
  rw [← converts_iff hdistinct hparse, hresult]
  constructor
  · rintro ⟨descriptions, heq, h⟩
    rwa [Option.some.inj heq]
  · exact fun h => ⟨_, rfl, h⟩

theorem mem_of_nestedClaim {name : String} {members : List (String × Value)} {x : Value}
    (h : nestedClaim name (obj members) = some x) : (name, x) ∈ members ∧ x.isObject = true :=
  (nestedClaim_eq_some.mp h).imp mem_of_lookup id

/-- Claims with a described group of two claims, and with one beside it. -/
def contactClaims : Value :=
  obj [("address", obj [("mandatory", .leaf (.bool false)),
      ("street", obj [("display", arr [obj [("name", str "Street"), ("locale", str "en")]])]),
      ("country", obj [("mandatory", .leaf (.bool true)), ("value_type", str "string")])]),
    ("given_name", obj [("value_type", str "string")])]

/-- The group, and the claims without nested claims. -/
def contactGroup : Value := (contactClaims.child (.name "address")).getD undefined

def contactEnds : List Value :=
  [obj [("display", arr [obj [("name", str "Street"), ("locale", str "en")]])],
    obj [("mandatory", .leaf (.bool true)), ("value_type", str "string")],
      obj [("value_type", str "string")]]

theorem nestedClaim_contactEnds : ∀ claim ∈ contactEnds, ∀ name, nestedClaim name claim = none := by
  intro claim hclaim name
  refine Option.eq_none_iff_forall_ne_some.mpr fun x hx => ?_
  simp only [contactEnds, List.mem_cons, List.not_mem_nil, or_false] at hclaim
  rcases hclaim with rfl | rfl | rfl
  all_goals
    obtain ⟨hmem, hobject⟩ := mem_of_nestedClaim hx
    simp only [List.mem_cons, List.not_mem_nil, or_false, Prod.mk.injEq] at hmem
  · rw [hmem.2] at hobject
    cases hobject
  · rcases hmem with ⟨-, rfl⟩ | ⟨-, rfl⟩ <;> cases hobject
  · rw [hmem.2] at hobject
    cases hobject

theorem nestedClaim_contactGroup {name : String} {x : Value}
    (h : nestedClaim name contactGroup = some x) :
    name ∉ descriptionNames ∧ name ≠ "__proto__" ∧ x ∈ contactEnds := by
  obtain ⟨hmem, hobject⟩ := mem_of_nestedClaim h
  simp only [List.mem_cons, List.not_mem_nil, or_false, Prod.mk.injEq] at hmem
  rcases hmem with ⟨-, rfl⟩ | ⟨rfl, rfl⟩ | ⟨rfl, rfl⟩
  · cases hobject
  · exact ⟨by decide, by decide, List.mem_cons_self⟩
  · exact ⟨by decide, by decide, List.mem_cons_of_mem _ List.mem_cons_self⟩

theorem nestedClaim_contactClaims {name : String} {x : Value}
    (h : nestedClaim name contactClaims = some x) :
    name ≠ "__proto__" ∧ (x = contactGroup ∨ x ∈ contactEnds) := by
  obtain ⟨hmem, -⟩ := mem_of_nestedClaim h
  simp only [List.mem_cons, List.not_mem_nil, or_false, Prod.mk.injEq] at hmem
  rcases hmem with ⟨rfl, rfl⟩ | ⟨rfl, rfl⟩
  · exact ⟨by decide, .inl rfl⟩
  · exact ⟨by decide, .inr (List.mem_cons_of_mem _ (List.mem_cons_of_mem _ List.mem_cons_self))⟩

/-- The claims of the example. -/
theorem claimAt_contactClaims {path : List String} {claim : Value} (hpath : path ≠ [])
    (h : claimAt path contactClaims = some claim) : claim = contactGroup ∨ claim ∈ contactEnds := by
  have hends : ∀ {path : List String} {x : Value}, x ∈ contactEnds → claimAt path x = some claim →
      claim ∈ contactEnds := by
    intro path x hx hclaim
    cases path with
    | nil => exact Option.some.inj hclaim ▸ hx
    | cons name path =>
      rw [claimAt, nestedClaim_contactEnds x hx] at hclaim
      cases hclaim
  cases path with
  | nil => exact absurd rfl hpath
  | cons name path =>
    obtain ⟨x, hx, hclaim⟩ := claimAt_cons_eq_some.mp h
    rcases (nestedClaim_contactClaims hx).2 with rfl | hx
    · cases path with
      | nil => exact .inl (Option.some.inj hclaim).symm
      | cons name' path =>
        obtain ⟨y, hy, hclaim⟩ := claimAt_cons_eq_some.mp hclaim
        exact .inr (hends (nestedClaim_contactGroup hy).2.2 hclaim)
    · exact .inr (hends hx hclaim)

theorem convertible_contactClaims : Convertible contactClaims where
  names path claim hpath hclaim name hname := by
    refine Option.eq_none_iff_forall_ne_some.mpr fun x hx => ?_
    rcases claimAt_contactClaims hpath hclaim with rfl | hclaim
    · exact (nestedClaim_contactGroup hx).1 hname
    · rw [nestedClaim_contactEnds claim hclaim] at hx
      cases hx
  ends path claim hpath hclaim _ := by
    rcases claimAt_contactClaims hpath hclaim with rfl | hclaim
    · rfl
    · simp only [contactEnds, List.mem_cons, List.not_mem_nil, or_false] at hclaim
      rcases hclaim with rfl | rfl | rfl <;> rfl
  groups path claim hpath hclaim hnested _ := by
    rcases claimAt_contactClaims hpath hclaim with rfl | hclaim
    · exact .inl ⟨false, rfl⟩
    · obtain ⟨name, x, hx⟩ := hnested
      rw [nestedClaim_contactEnds claim hclaim] at hx
      cases hx
  root := rfl
  proto key claim hclaim := by
    refine Option.eq_none_iff_forall_ne_some.mpr fun x hx => ?_
    rcases (nestedClaim_contactClaims hclaim).2 with rfl | hclaim
    · exact (nestedClaim_contactGroup hx).2.1 rfl
    · rw [nestedClaim_contactEnds claim hclaim] at hx
      cases hx
  display key claim items hclaim hitems := by
    obtain ⟨hmem, -⟩ := mem_of_nestedClaim hclaim
    simp only [List.mem_cons, List.not_mem_nil, or_false, Prod.mk.injEq] at hmem
    rcases hmem with ⟨-, rfl⟩ | ⟨-, rfl⟩ <;> cases hitems

/-- The group is listed, and the claims in it and beside it. -/
theorem claimsObjectToClaimsArray_contactClaims : ∃ descriptions,
    claimsObjectToClaimsArray contactClaims = some descriptions ∧
      descriptions.map ClaimsDescription.path =
        [["address"], ["address", "street"], ["address", "country"], ["given_name"]] ∧
      Converts contactClaims descriptions := by
  have hdistinct : contactClaims.Distinct := (IsJson.of_isJson (by decide)).distinct
  obtain ⟨descriptions, hdescriptions, hconverts⟩ :=
    (claimsObjectToClaimsArray_iff contactClaims hdistinct rfl).mpr convertible_contactClaims
  have hpaths : (claimsObjectToClaimsArray contactClaims).map (List.map ClaimsDescription.path) =
      some [["address"], ["address", "street"], ["address", "country"], ["given_name"]] := rfl
  rw [hdescriptions] at hpaths
  exact ⟨descriptions, hdescriptions, Option.some.inj hpaths, hconverts⟩

/-- A claim without a description and without nested claims gets no description. -/
theorem not_converts_of_empty_claim : (obj [("given_name", obj [])]).Distinct ∧
    claimsObjectToClaimsArray (obj [("given_name", obj [])]) = some [] ∧
    ¬Converts (obj [("given_name", obj [])]) [] := by
  refine ⟨(IsJson.of_isJson (by decide)).distinct, rfl, fun h => ?_⟩
  have hend : ¬HasNestedClaim (obj []) := by
    rintro ⟨name, x, hx⟩
    cases hx
  obtain ⟨description, hmem, -⟩ :=
    h.complete ["given_name"] (obj []) (List.cons_ne_nil _ _) rfl (.inr hend)
  cases hmem

end IdentityCommon.Openid4vci
