import IdentityCommon.SdJwt.Processing

/-!
# Withholding disclosures

What processing computes when some of the disclosures of a credential are left out, as a holder
leaves them out of a presentation.

## Main definitions

- `Restricts` — a map that has some of the disclosures of another one
- `Tree.prune` — a tree without the disclosures that a map does not have
- `Withholds` — a value with some of the members and elements of another one
- `AncestorClosed` — the disclosures around a disclosure are kept with it

## Main results

- `withholding` — one tree explains every selection of the disclosures: it is processed exactly when
  it is ancestor closed, and the result is the tree without the others
-/

namespace IdentityCommon.SdJwt

open Ecma Value AssocList IdentityCommon.Except

variable {map map' : DisclosureMap}

/-- A map has some of the disclosures of another one. -/
def Restricts (map' map : DisclosureMap) : Prop :=
  ∀ hash, disclosed map' hash = none ∨ disclosed map' hash = disclosed map hash

theorem restricts_of_subset (hsub : map' ⊆ map) (hn : (keys map).Nodup)
    (hi : ∀ hash ∈ keys map, hash ∉ inheritedNames) : Restricts map' map := by
  intro hash
  cases h : map'.lookup hash with
  | some d =>
    right
    rw [disclosed, disclosed, h, lookup_of_mem hn (hsub (mem_of_lookup h))]
  | none =>
    by_cases hinh : hash ∈ inheritedNames
    · right
      have hnone : map.lookup hash = none := lookup_eq_none_iff.mpr fun hmem => hi hash hmem hinh
      rw [disclosed, disclosed, h, hnone]
    · left
      rw [disclosed, h]
      exact if_neg hinh

/-! ## Values with less in them -/

/-- The first value has some of the members and elements of the second one, with some of their
members and elements, in the same order. -/
inductive Withholds : Value → Value → Prop
  | leaf (l : Leaf) : Withholds (.leaf l) (.leaf l)
  | noItems : Withholds (.arr []) (.arr [])
  | item {x' x : Value} {items' items : List Value} : Withholds x' x →
      Withholds (.arr items') (.arr items) →
      Withholds (.arr (x' :: items')) (.arr (x :: items))
  | withoutItem {x : Value} {items' items : List Value} : Withholds (.arr items') (.arr items) →
      Withholds (.arr items') (.arr (x :: items))
  | noMembers : Withholds (.obj []) (.obj [])
  | member {key : String} {v' v : Value} {members' members : List (String × Value)} :
      Withholds v' v →
      Withholds (.obj members') (.obj members) →
      Withholds (.obj ((key, v') :: members')) (.obj ((key, v) :: members))
  | withoutMember {m : String × Value} {members' members : List (String × Value)} :
      Withholds (.obj members') (.obj members) → Withholds (.obj members') (.obj (m :: members))

namespace Withholds

theorem append_items {items items' rest rest' : List Value}
    (h : Withholds (.arr items') (.arr items)) (hrest : Withholds (.arr rest') (.arr rest)) :
    Withholds (.arr (items' ++ rest')) (.arr (items ++ rest)) := by
  induction items generalizing items' with
  | nil =>
    cases h with
    | noItems => exact hrest
  | cons x items ih =>
    cases h with
    | item hx hitems => exact .item hx (ih hitems)
    | withoutItem hitems => exact .withoutItem (ih hitems)

theorem append_members {members members' rest rest' : List (String × Value)}
    (h : Withholds (.obj members') (.obj members)) (hrest : Withholds (.obj rest') (.obj rest)) :
    Withholds (.obj (members' ++ rest')) (.obj (members ++ rest)) := by
  induction members generalizing members' with
  | nil =>
    cases h with
    | noMembers => exact hrest
  | cons m members ih =>
    cases h with
    | member hv hmembers => exact .member hv (ih hmembers)
    | withoutMember hmembers => exact .withoutMember (ih hmembers)

theorem refl (v : Value) : Withholds v v := by
  induction v with
  | leaf l => exact .leaf l
  | arr items ih =>
    induction items with
    | nil => exact .noItems
    | cons x items ihs =>
      obtain ⟨hx, hitems⟩ := List.forall_mem_cons.mp ih
      exact .item hx (ihs hitems)
  | obj members ih =>
    induction members with
    | nil => exact .noMembers
    | cons m members ihs =>
      obtain ⟨hm, hmembers⟩ := List.forall_mem_cons.mp ih
      exact .member hm (ihs hmembers)

end Withholds

/-! ## Pruned trees -/

namespace Tree

def isHidden : Tree → Bool
  | hidden _ => true
  | _ => false

mutual

/-- A tree without the disclosures that the map does not have. -/
def prune (map : DisclosureMap) : Tree → Tree
  | arr items => arr (pruneItems map items)
  | obj members sd => obj (pruneMembers map members) (pruneDigests map sd)
  | disclosed digest content =>
    if (SdJwt.disclosed map digest).isSome then disclosed digest (prune map content)
    else hidden digest
  | leaf l => leaf l
  | raw v => raw v
  | digestList => digestList
  | hidden digest => hidden digest

def pruneItems (map : DisclosureMap) : List Tree → List Tree
  | [] => []
  | t :: items => prune map t :: pruneItems map items

def pruneMembers (map : DisclosureMap) : List (String × Tree) → List (String × Tree)
  | [] => []
  | (key, t) :: members => (key, prune map t) :: pruneMembers map members

/-- A digest without a disclosure has no name. -/
def pruneDigests (map : DisclosureMap) : List (String × Tree) → List (String × Tree)
  | [] => []
  | (key, t) :: sd =>
    (if (prune map t).isHidden then "" else key, prune map t) :: pruneDigests map sd

end

theorem prune_disclosed_of_some {digest : String} (h : (SdJwt.disclosed map digest).isSome)
    (content : Tree) :
    prune map (disclosed digest content) = disclosed digest (prune map content) := by
  rw [prune, if_pos h]

theorem prune_disclosed_of_none {digest : String} (h : SdJwt.disclosed map digest = none)
    (content : Tree) :
    prune map (disclosed digest content) = hidden digest := by
  rw [prune, if_neg (by simp [h])]

@[simp] theorem isValue_prune (t : Tree) : (prune map t).isValue = t.isValue := by
  cases t with
  | disclosed digest content =>
    rw [prune]
    split <;> rfl
  | _ => rfl

@[simp] theorem digest_prune (t : Tree) : (prune map t).digest = t.digest := by
  cases t with
  | disclosed digest content =>
    rw [prune]
    split <;> rfl
  | _ => rfl

@[simp] theorem keys_pruneMembers (members : List (String × Tree)) :
    keys (pruneMembers map members) = keys members := by
  induction members with
  | nil => rfl
  | cons m members ih => exact congrArg (m.1 :: ·) ih

theorem digestValues_pruneDigests (sd : List (String × Tree)) :
    digestValues (pruneDigests map sd) = digestValues sd := by
  rw [digestValues, digestValues]
  induction sd with
  | nil => rfl
  | cons m sd ih =>
    simp only [Value.arr.injEq] at ih ⊢
    rw [pruneDigests, List.map_cons, List.map_cons, ih, digest_prune]

theorem pruneItems_eq (items : List Tree) : pruneItems map items = items.map (prune map) := by
  induction items with
  | nil => rfl
  | cons t items ih => exact congrArg _ ih

/-! ## What is signed stays -/

theorem prune_ne_digestList {t : Tree} (h : t ≠ digestList) : prune map t ≠ digestList := by
  cases t with
  | disclosed digest content =>
    rw [prune]
    split <;> nofun
  | digestList => exact absurd rfl h
  | _ => nofun

theorem payloadMembers_cons_of_ne {t : Tree} (h : t ≠ digestList) (_sd : Value) (key : String)
    (members : List (String × Tree)) :
    payloadMembers _sd ((key, t) :: members) = (key, t.payload) :: payloadMembers _sd members := by
  cases t with
  | digestList => exact absurd rfl h
  | _ => rfl

theorem payload_pruneMembers (_sd : Value) {members : List (String × Tree)}
    (ih : ∀ m ∈ members, (prune map m.2).payload = m.2.payload) :
    payloadMembers _sd (pruneMembers map members) = payloadMembers _sd members := by
  induction members with
  | nil => rfl
  | cons m members ihs =>
    obtain ⟨key, t⟩ := m
    obtain ⟨ht, hmembers⟩ := List.forall_mem_cons.mp ih
    rw [pruneMembers]
    by_cases h : t = digestList
    · subst h
      exact congrArg ((key, _sd) :: ·) (ihs hmembers)
    · rw [payloadMembers_cons_of_ne (prune_ne_digestList h), payloadMembers_cons_of_ne h,
        ihs hmembers, ht]

@[simp] theorem payload_prune (t : Tree) : (prune map t).payload = t.payload := by
  induction t with
  | arr items ih =>
    rw [prune, payload, payload, payloadItems_eq, payloadItems_eq, pruneItems_eq, List.map_map]
    exact congrArg _ (List.map_congr_left ih)
  | obj members sd ih =>
    rw [prune, payload, payload, digestValues_pruneDigests, payload_pruneMembers _ ih]
  | disclosed digest content =>
    rw [prune]
    split <;> rfl
  | leaf l => rfl
  | raw v => rfl
  | digestList => rfl
  | hidden digest => rfl

/-! ## What is processed is some of it -/

theorem digests_prune (t : Tree) : List.Sublist (prune map t).digests t.digests := by
  induction t with
  | arr items ih =>
    rw [prune, digests, digests, digestsItems_eq, digestsItems_eq, pruneItems_eq, List.flatMap_map]
    exact List.Sublist.flatMap_right _ ih
  | obj members sd ih ihsd =>
    rw [prune, digests, digests, digestsMembers_eq, digestsMembers_eq, digestsMembers_eq,
      digestsMembers_eq]
    refine List.Sublist.append ?_ ?_
    · clear ihsd
      induction members with
      | nil => exact .slnil
      | cons m members ihs =>
        obtain ⟨hm, hmembers⟩ := List.forall_mem_cons.mp ih
        exact List.Sublist.append hm (ihs hmembers)
    · clear ih
      induction sd with
      | nil => exact .slnil
      | cons m sd ihs =>
        obtain ⟨hm, hsd⟩ := List.forall_mem_cons.mp ihsd
        exact List.Sublist.append hm (ihs hsd)
  | disclosed digest content ih =>
    rw [prune]
    split
    case isTrue => exact ih.cons_cons digest
    case isFalse => exact List.singleton_sublist.mpr List.mem_cons_self
  | leaf l => exact .slnil
  | raw v => exact .slnil
  | digestList => exact .slnil
  | hidden digest => exact List.Sublist.refl _

/-! ## What is revealed is some of it -/

/-- The claims of the pruned tree are left of the claims of the tree. -/
def LeavesClaims (map : DisclosureMap) (t : Tree) : Prop :=
  ∀ v', (prune map t).claims = some v' → ∃ v, t.claims = some v ∧ Withholds v' v

theorem claims_pruneItems {items : List Tree} (ih : ∀ t ∈ items, LeavesClaims map t) :
    Withholds (.arr (claimsItems (pruneItems map items))) (.arr (claimsItems items)) := by
  induction items with
  | nil => exact .noItems
  | cons t items ihs =>
    obtain ⟨ht, hitems⟩ := List.forall_mem_cons.mp ih
    refine Withholds.append_items ?_ (ihs hitems)
    cases hc' : (prune map t).claims with
    | none =>
      cases t.claims with
      | none => exact .noItems
      | some v => exact .withoutItem .noItems
    | some v' =>
      obtain ⟨v, hc, hv⟩ := ht v' hc'
      rw [hc]
      exact .item hv .noItems

theorem withholds_member {key key' : String} {t : Tree} (ht : LeavesClaims map t)
    (hkey : ∀ v', (prune map t).claims = some v' → key' = key) :
    Withholds (.obj ((prune map t).claims.map (key', ·)).toList)
      (.obj (t.claims.map (key, ·)).toList) := by
  cases hc' : (prune map t).claims with
  | none =>
    cases t.claims with
    | none => exact .noMembers
    | some v => exact .withoutMember .noMembers
  | some v' =>
    obtain ⟨v, hc, hv⟩ := ht v' hc'
    rw [hc, hkey v' hc']
    exact .member hv .noMembers

theorem claims_pruneMembers {members : List (String × Tree)}
    (ih : ∀ m ∈ members, LeavesClaims map m.2) :
    Withholds (.obj (claimsMembers (pruneMembers map members))) (.obj (claimsMembers members)) := by
  induction members with
  | nil => exact .noMembers
  | cons m members ihs =>
    obtain ⟨hm, hmembers⟩ := List.forall_mem_cons.mp ih
    exact Withholds.append_members (withholds_member hm fun _ _ => rfl) (ihs hmembers)

theorem claims_pruneDigests {sd : List (String × Tree)} (ih : ∀ m ∈ sd, LeavesClaims map m.2) :
    Withholds (.obj (claimsMembers (pruneDigests map sd))) (.obj (claimsMembers sd)) := by
  induction sd with
  | nil => exact .noMembers
  | cons m sd ihs =>
    obtain ⟨hm, hsd⟩ := List.forall_mem_cons.mp ih
    refine Withholds.append_members (withholds_member hm fun v' hv' => ?_) (ihs hsd)
    cases h : prune map m.2 with
    | hidden digest =>
      rw [h] at hv'
      cases hv'
    | _ => rfl

theorem leavesClaims (t : Tree) : LeavesClaims map t := by
  induction t with
  | arr items ih =>
    intro v' hc'
    cases hc'
    exact ⟨_, rfl, claims_pruneItems ih⟩
  | obj members sd ih ihsd =>
    intro v' hc'
    cases hc'
    exact ⟨_, rfl, Withholds.append_members (claims_pruneMembers ih) (claims_pruneDigests ihsd)⟩
  | disclosed digest content ih =>
    intro v' hc'
    rw [prune] at hc'
    split at hc'
    case isTrue => exact ih v' hc'
    case isFalse => cases hc'
  | leaf l => exact fun v' hc' => ⟨v', hc', .refl v'⟩
  | raw v => exact fun v' hc' => ⟨v', hc', .refl v'⟩
  | digestList => exact fun v' hc' => by cases hc'
  | hidden digest => exact fun v' hc' => by cases hc'

/-! ## The map of what is kept fits -/

theorem itemFits_prune (hr : Restricts map' map) {t : Tree} (h : ItemFits map t) :
    ItemFits map' (prune map' t) := by
  rcases itemFits_cases h with ⟨hash, rfl, hnone⟩ | ⟨hash, content, rfl, hsome⟩ | ⟨hv, hp⟩
  · exact (hr hash).elim id fun heq => heq.trans hnone
  · cases hd : SdJwt.disclosed map' hash with
    | none =>
      rw [prune_disclosed_of_none hd]
      exact hd
    | some x =>
      rw [prune_disclosed_of_some (by simp [hd]), ItemFits, payload_prune, ← hsome]
      exact (hr hash).resolve_left (by simp [hd])
  · exact itemFits_of_isValue (isValue_prune t ▸ hv) (payload_prune t ▸ hp)

theorem digestFits_prune (hr : Restricts map' map) {key : String} {t : Tree}
    (h : DigestFits map key t) :
    DigestFits map' (if (prune map' t).isHidden then "" else key) (prune map' t) := by
  rcases digestFits_cases h with ⟨hash, rfl, hnone, -⟩ | ⟨hash, content, rfl, hsome⟩
  · exact ⟨(hr hash).elim id fun heq => heq.trans hnone, rfl⟩
  · cases hd : SdJwt.disclosed map' hash with
    | none =>
      rw [prune_disclosed_of_none hd]
      exact ⟨hd, rfl⟩
    | some x =>
      rw [prune_disclosed_of_some (by simp [hd]), DigestFits, payload_prune]
      exact ((hr hash).resolve_left (by simp [hd])).trans hsome

theorem memberFits_prune {path key : String} {t : Tree} (h : MemberFits path key t) :
    MemberFits path key (prune map' t) := by
  rcases memberFits_cases h with ⟨rfl, hkey⟩ | ⟨v, rfl, hkey⟩ | ⟨hv, hd, hl, ha⟩
  · exact hkey
  · exact hkey
  · exact memberFits_of_isValue (isValue_prune t ▸ hv) hd hl ha

/-- The names that are disclosed are some of those of all disclosures. -/
theorem keys_claims_pruneDigests (map' : DisclosureMap) (sd : List (String × Tree)) :
    List.Sublist (keys (claimsMembers (pruneDigests map' sd))) (keys (claimsMembers sd)) := by
  induction sd with
  | nil => exact .slnil
  | cons m sd ih =>
    obtain ⟨key, t⟩ := m
    rw [pruneDigests, claimsMembers, claimsMembers, keys, keys, List.map_append, List.map_append]
    refine List.Sublist.append ?_ ih
    cases hc' : (prune map' t).claims with
    | none => exact List.nil_sublist _
    | some v' =>
      obtain ⟨v, hc, -⟩ := leavesClaims t v' hc'
      have hkey : (prune map' t).isHidden = false := by
        cases h : prune map' t with
        | hidden digest =>
          rw [h] at hc'
          cases hc'
        | _ => rfl
      simp [hc, hkey]

theorem fits_prune (hr : Restricts map' map) {t : Tree} {path : String} (h : Fits map path t) :
    Fits map' path (prune map' t) := by
  induction t generalizing path with
  | arr items ih =>
    rw [prune, Fits]
    rw [Fits] at h
    generalize 0 = idx at h ⊢
    induction items generalizing idx with
    | nil => trivial
    | cons t items ihs =>
      obtain ⟨hitem, ht, hitems⟩ := h
      obtain ⟨iht, ihitems⟩ := List.forall_mem_cons.mp ih
      exact ⟨itemFits_prune hr hitem, iht ht, ihs ihitems (idx + 1) hitems⟩
  | obj members sd ih ihsd =>
    obtain ⟨hmembers, hsd, hdig, hnames, hnodup⟩ := h
    have hsub := keys_claims_pruneDigests map' sd
    refine ⟨?_, ?_, fun hne => ?_, fun key hkey => ?_, hsub.nodup hnodup⟩
    · clear ihsd hdig hnames
      induction members with
      | nil => trivial
      | cons m members ihs =>
        obtain ⟨hm, ht, hmembers⟩ := hmembers
        obtain ⟨iht, ihmembers⟩ := List.forall_mem_cons.mp ih
        exact ⟨memberFits_prune hm, iht ht, ihs ihmembers hmembers⟩
    · clear ih hdig hnames hnodup hsub
      induction sd with
      | nil => trivial
      | cons m sd ihs =>
        obtain ⟨hm, ht, hsd⟩ := hsd
        obtain ⟨iht, ihsd⟩ := List.forall_mem_cons.mp ihsd
        refine ⟨digestFits_prune hr hm, ?_, ihs ihsd hsd⟩
        split
        case isTrue hhidden =>
          cases hp : prune map' m.2 with
          | hidden digest => trivial
          | _ => simp [hp, isHidden] at hhidden
        case isFalse => exact iht ht
    · rw [keys_pruneMembers]
      exact hdig fun hnil => hne (by rw [hnil]; rfl)
    · rw [keys_pruneMembers]
      exact hnames key (hsub.subset hkey)
  | disclosed digest content ih =>
    rw [prune]
    split
    case isTrue => exact ⟨isValue_prune content ▸ h.1, ih h.2⟩
    case isFalse => trivial
  | leaf l => trivial
  | raw v => trivial
  | digestList => trivial
  | hidden digest => trivial

end Tree

/-! ## Ancestors -/

/-- The disclosures whose values hold the digest of a kept disclosure are kept with it. -/
def AncestorClosed (map map' : DisclosureMap) : Prop :=
  ∀ m ∈ map, ∀ hash ∈ foundDigests m.2.value, hash ∈ keys map' → m.1 ∈ keys map'

/-- The tree that processing a payload with all disclosures of the map has followed. -/
structure Explains (map : DisclosureMap) (payload : Value) (r : Unpacked) (t : Tree) : Prop where
  isValue : t.isValue
  payload_eq : t.payload = payload
  fits : t.Fits map ""
  nodup : t.digests.Nodup
  used : keys map ⊆ t.digests
  claims_eq : t.claims = some r.unpackedObj
  keymap_eq : r.disclosureKeymap = assign [] (t.log "")

variable {payload : Value} {r : Unpacked} {t : Tree}

theorem exists_explains (hm : DistinctValues map) (hd : payload.Distinct) :
    unpackObj payload map = .ok r ↔ ∃ t, Explains map payload r t := by
  rw [unpackObj_eq_ok hm hd]
  constructor
  · rintro ⟨t, hv, hpayload, hfit, hn, hused, hc, hk⟩
    exact ⟨t, hv, hpayload, hfit, hn, hused, hc, hk⟩
  · rintro ⟨t, ht⟩
    exact ⟨t, ht.isValue, ht.payload_eq, ht.fits, ht.nodup, ht.used, ht.claims_eq, ht.keymap_eq⟩

theorem Explains.count_found (h : Explains map payload r t) (hj : payload.IsJson)
    (hm : DistinctValues map) (hn : (keys map).Nodup) (hash : String) :
    (foundDigests payload).count hash + (map.flatMap (foundDigests ·.2.value)).count hash =
      t.digests.count hash := by
  have hcount := Tree.countsAt_core hm hash t
  rw [Tree.core_of_isValue h.isValue] at hcount
  have hpayload := h.payload_eq
  rw [hcount _ h.isValue h.fits (hpayload ▸ hj.distinct), hpayload,
    count_contents h.isValue h.fits hn h.nodup h.used]

/-- Each digest is found in one place. -/
theorem Explains.count_le_one (h : Explains map payload r t) (hj : payload.IsJson)
    (hm : DistinctValues map) (hn : (keys map).Nodup) (hash : String) :
    (foundDigests payload).count hash + (map.flatMap (foundDigests ·.2.value)).count hash ≤ 1 := by
  rw [h.count_found hj hm hn]
  exact List.nodup_iff_count_le_one.mp h.nodup hash

/-- An element that is in the lists of two members is in their concatenation twice. -/
theorem eq_of_count_flatMap_le_one {α β : Type*} [DecidableEq β] {l : List α}
    {f : α → List β} {x : β} (h : (l.flatMap f).count x ≤ 1) {a b : α} (ha : a ∈ l) (hb : b ∈ l)
    (hxa : x ∈ f a) (hxb : x ∈ f b) : a = b := by
  induction l with
  | nil => cases ha
  | cons c l ih =>
    rw [List.flatMap_cons, List.count_append] at h
    have hpos : ∀ d ∈ l, x ∈ f d → 0 < (l.flatMap f).count x := fun d hd hx =>
      List.count_pos_iff.mpr (List.mem_flatMap.mpr ⟨d, hd, hx⟩)
    rcases List.mem_cons.mp ha with rfl | ha'
    · rcases List.mem_cons.mp hb with rfl | hb'
      · rfl
      · have hcb := hpos b hb' hxb
        have hca := List.count_pos_iff.mpr hxa
        omega
    · rcases List.mem_cons.mp hb with rfl | hb'
      · have hca := hpos a ha' hxa
        have hcb := List.count_pos_iff.mpr hxb
        omega
      · exact ih (by omega) ha' hb'

/-- What is reached through kept disclosures is ancestor closed. -/
theorem Explains.ancestorClosed (h : Explains map payload r t) (hj : payload.IsJson)
    (hm : DistinctValues map) (hn : (keys map).Nodup) (hsub : map' ⊆ map)
    (hreached : ∀ hash ∈ keys map', Reached map' payload hash) :
    AncestorClosed map map' := by
  intro m hmem hash hfound hkept
  have hle := h.count_le_one hj hm hn hash
  have hin : 0 < (map.flatMap (foundDigests ·.2.value)).count hash :=
    List.count_pos_iff.mpr (List.mem_flatMap.mpr ⟨m, hmem, hfound⟩)
  cases hreached hash hkept with
  | payload hpay =>
    have hpos := List.count_pos_iff.mpr hpay
    omega
  | @disclosure digest _ d hdigest hlookup hvalue =>
    have hd : (digest, d) ∈ map' := mem_of_lookup hlookup
    have hone : (map.flatMap (foundDigests ·.2.value)).count hash ≤ 1 := by omega
    obtain rfl := eq_of_count_flatMap_le_one hone hmem (hsub hd) hfound hvalue
    exact mem_keys_of_mem hd

/-- The pruned tree has the digests of what is ancestor closed. -/
theorem Explains.subset_prune (h : Explains map payload r t) (hj : payload.IsJson)
    (hm : DistinctValues map) (hsub : map' ⊆ map) (hr : Restricts map' map)
    (hclosed : AncestorClosed map map') :
    keys map' ⊆ (t.prune map').digests := by
  have hv : (t.prune map').isValue := Tree.isValue_prune t ▸ h.isValue
  have hfit := Tree.fits_prune hr h.fits
  have hm' : DistinctValues map' := fun m hmem => hm m (hsub hmem)
  have hpayload : (t.prune map').payload = payload := (Tree.payload_prune t).trans h.payload_eq
  have hcount := fun hash => by
    have hcount := Tree.countsAt_core hm' hash (t.prune map')
    rw [Tree.core_of_isValue hv] at hcount
    exact hcount _ hv hfit (hpayload ▸ hj.distinct)
  intro hash hkept
  have hmem : hash ∈ keys map := by
    obtain ⟨m, hm, rfl⟩ := List.mem_map.mp hkept
    exact mem_keys_of_mem (hsub hm)
  have hreached : Reached map payload hash :=
    Tree.reached_of_mem_digests h.isValue h.fits _
      (fun _ hh => .payload (h.payload_eq ▸ hh)) _ (h.used hmem)
  -- by induction on how the digest is reached, with its ancestors kept
  induction hreached with
  | payload hfound =>
    refine List.count_pos_iff.mp ?_
    have hpos := List.count_pos_iff.mpr hfound
    rw [hcount, hpayload]
    omega
  | @disclosure digest digest' d hdigest hlookup hfound ih =>
    have hkept' : digest ∈ keys map' := hclosed (digest, d) (mem_of_lookup hlookup) _ hfound hkept
    have hdig := ih hkept' (mem_keys_of_mem (mem_of_lookup hlookup))
    obtain ⟨m, hmem', hkey⟩ := List.mem_map.mp hkept'
    have hdis : disclosed map' digest ≠ none := by
      rw [disclosed]
      cases hl : map'.lookup digest with
      | none => exact absurd hkept' (lookup_eq_none_iff.mp hl)
      | some d' => exact fun h => by cases h
    have hvalue : (digest, d.value) ∈ (t.prune map').contents := by
      obtain ⟨⟨hash, value⟩, hc, rfl⟩ :=
        List.mem_map.mp ((Tree.mem_contents_of_mem_digests hv hfit _ hdig).resolve_right hdis)
      obtain ⟨key, hkey⟩ := Tree.disclosed_of_mem_contents hv hfit _ hc
      have heq := ((hr _).resolve_left (by rw [hkey]; exact fun h => by cases h)).symm.trans hkey
      rw [disclosed, hlookup] at heq
      cases heq
      exact hc
    refine List.count_pos_iff.mp ?_
    have hpos : 0 < ((t.prune map').contents.flatMap (foundDigests ·.2)).count digest' :=
      List.count_pos_iff.mpr (List.mem_flatMap.mpr ⟨_, hvalue, hfound⟩)
    rw [hcount]
    omega

/-- Processing with some of the disclosures that a tree explains. -/
theorem Explains.withheld (ht : Explains map payload r t) (hj : payload.IsJson)
    (hm : DistinctValues map) (hn : (keys map).Nodup)
    (hi : ∀ hash ∈ keys map, hash ∉ inheritedNames) (hsub : map' ⊆ map) :
    ((∃ r', unpackObj payload map' = .ok r') ↔ AncestorClosed map map') ∧
      ∀ r', unpackObj payload map' = .ok r' →
        (t.prune map').claims = some r'.unpackedObj ∧ Withholds r'.unpackedObj r.unpackedObj := by
  have hr := restricts_of_subset hsub hn hi
  have hm' : DistinctValues map' := fun m hmem => hm m (hsub hmem)
  have hclosed : (∃ r', unpackObj payload map' = .ok r') → AncestorClosed map map' := by
    rintro ⟨r', h'⟩
    obtain ⟨t', ht'⟩ := (exists_explains hm' hj.distinct).mp h'
    refine ht.ancestorClosed hj hm hn hsub fun hash hmem => ?_
    exact Tree.reached_of_mem_digests ht'.isValue ht'.fits _
      (fun _ hh => .payload (ht'.payload_eq ▸ hh)) _ (ht'.used hmem)
  have hok : AncestorClosed map map' → ∀ v', (t.prune map').claims = some v' →
      unpackObj payload map' = .ok ⟨v', assign [] ((t.prune map').log "")⟩ := fun hclosed v' hc' =>
    (exists_explains hm' hj.distinct).mpr ⟨t.prune map', Tree.isValue_prune t ▸ ht.isValue,
      (Tree.payload_prune t).trans ht.payload_eq, Tree.fits_prune hr ht.fits,
        (Tree.digests_prune t).nodup ht.nodup,
      ht.subset_prune hj hm hsub hr hclosed, hc', rfl⟩
  have hv' : (t.prune map').isValue := Tree.isValue_prune t ▸ ht.isValue
  obtain ⟨v', hc'⟩ := Tree.exists_claims hv'
  refine ⟨⟨hclosed, fun hclosed => ⟨_, hok hclosed v' hc'⟩⟩, fun r' h' => ?_⟩
  have heq := hok (hclosed ⟨r', h'⟩) v' hc'
  rw [h'] at heq
  cases heq
  obtain ⟨v, hv, hw⟩ := Tree.leavesClaims t v' hc'
  cases ht.claims_eq.symm.trans hv
  exact ⟨hc', hw⟩

/-- One tree explains every selection of the disclosures of a credential. A selection is processed
exactly when it is ancestor closed, and then reveals the claims of the tree without the other
disclosures, which are some of the members and elements of the claims of all disclosures. -/
theorem withholding {payload : Value} (hj : payload.IsJson) (hm : ∀ m ∈ map, m.2.value.IsJson)
    (hn : (keys map).Nodup) (hi : ∀ hash ∈ keys map, hash ∉ inheritedNames) {r : Unpacked}
    (h : unpackObj payload map = .ok r) :
    ∃ t, Explains map payload r t ∧ ∀ map' ⊆ map,
      ((∃ r', unpackObj payload map' = .ok r') ↔ AncestorClosed map map') ∧
        ∀ r', unpackObj payload map' = .ok r' →
          (t.prune map').claims = some r'.unpackedObj ∧ Withholds r'.unpackedObj r.unpackedObj := by
  have hdm : DistinctValues map := fun m hmem => (hm m hmem).distinct
  obtain ⟨t, ht⟩ := (exists_explains hdm hj.distinct).mp h
  exact ⟨t, ht, fun map' hsub => ht.withheld hj hdm hn hi hsub⟩

/-- The street can be withheld, and the address cannot be withheld with its code kept. -/
theorem withholding_address :
    (∃ r', unpackObj addressPayload (addressDisclosures.take 2) = .ok r' ∧
      Withholds r'.unpackedObj addressUnpacked.unpackedObj) ∧
    ¬ ∃ r', unpackObj addressPayload (addressDisclosures.drop 1) = .ok r' := by
  obtain ⟨t, -, h⟩ := withholding (.of_isJson (by decide)) addressDisclosures_isJson (by decide)
    (by decide) unpackObj_address
  obtain ⟨hiff, hres⟩ := h _ (List.take_subset 2 _)
  obtain ⟨r', hr'⟩ := hiff.mpr (show ∀ m ∈ addressDisclosures, ∀ hash ∈ foundDigests m.2.value,
    hash ∈ keys (addressDisclosures.take 2) → m.1 ∈ keys (addressDisclosures.take 2) by decide)
  refine ⟨⟨r', hr', (hres r' hr').2⟩, fun hdrop => ?_⟩
  have hclosed : ∀ m ∈ addressDisclosures, ∀ hash ∈ foundDigests m.2.value,
      hash ∈ keys (addressDisclosures.drop 1) → m.1 ∈ keys (addressDisclosures.drop 1) :=
    (h _ (List.drop_subset 1 _)).1.mp hdrop
  revert hclosed
  decide

end IdentityCommon.SdJwt
