import IdentityCommon.SdJwt.Termination

/-!
# What processing guarantees

Every digest of a disclosure is found once, in the payload or in a value that another disclosure
reveals, and every disclosure is used. The claims have no member `_sd` and no array element with a
member `...` where none of them comes from a member `...` that is left as it is.

## Main definitions

- `foundDigests` — the digests in a value, without those in disclosures
- `Reached` — a digest is in the payload or in the value of a disclosure whose digest is reached
- `processed` — no member `_sd` and no array element with a member `...`
- `strayProcessed` — the values of the members `...` are processed

## Main results

- `processing` — termination and what a result guarantees
-/

namespace IdentityCommon.SdJwt

open Ecma Value AssocList IdentityCommon.Except

variable {map : DisclosureMap}

/-- Whether a value is an object with a member `...`. -/
def hasListKey : Value → Bool
  | .obj members => (members.lookup SD_LIST_KEY).isSome
  | _ => false

mutual

/-- The digests in a value besides those in members `...` of objects that are no placeholders. -/
def foundDigests : Value → List String
  | .leaf _ => []
  | .arr items => foundInItems items
  | .obj members => foundInMembers members

def foundInItems : List Value → List String
  | [] => []
  | item :: items => (placeholder item).join.toList ++ foundDigests item ++ foundInItems items

def foundInMembers : List (String × Value) → List String
  | [] => []
  | (key, value) :: members =>
    (if key = SD_DIGEST then (digestList value).getD []
      else if key = SD_LIST_KEY then [] else foundDigests value) ++ foundInMembers members

end

/-- A digest that processing comes to. -/
inductive Reached (map : DisclosureMap) (payload : Value) : String → Prop
  | payload {digest : String} : digest ∈ foundDigests payload → Reached map payload digest
  | disclosure {digest digest' : String} {disclosure : Disclosure} : Reached map payload digest →
      map.lookup digest = some disclosure → digest' ∈ foundDigests disclosure.value →
      Reached map payload digest'

mutual

/-- There is no member `_sd` and no array element with a member `...`. -/
def processed : Value → Bool
  | .leaf _ => true
  | .arr items => itemsProcessed items
  | .obj members => membersProcessed members

def itemsProcessed : List Value → Bool
  | [] => true
  | item :: items => !hasListKey item && processed item && itemsProcessed items

def membersProcessed : List (String × Value) → Bool
  | [] => true
  | (key, value) :: members => key ≠ SD_DIGEST && processed value && membersProcessed members

end

mutual

/-- The values of members `...` are processed as they are. -/
def strayProcessed : Value → Bool
  | .leaf _ => true
  | .arr items => itemsStrayProcessed items
  | .obj members => membersStrayProcessed members

def itemsStrayProcessed : List Value → Bool
  | [] => true
  | item :: items => strayProcessed item && itemsStrayProcessed items

def membersStrayProcessed : List (String × Value) → Bool
  | [] => true
  | (key, value) :: members =>
    (if key = SD_LIST_KEY then processed value else strayProcessed value) &&
      membersStrayProcessed members

end

/-- Every member `...` in the payload or in the value of a disclosure has a processed value, and no
array element is disclosed that is an object with a member `...`. -/
def noStray (payload : Value) (map : DisclosureMap) : Bool :=
  strayProcessed payload && map.all fun m =>
    strayProcessed m.2.value && (m.2.key.isSome || !hasListKey m.2.value)

theorem membersProcessed_append (members members' : List (String × Value)) :
    membersProcessed (members ++ members') =
      (membersProcessed members && membersProcessed members') := by
  induction members with
  | nil => rfl
  | cons m members ih =>
    obtain ⟨key, x⟩ := m
    simp [membersProcessed, ih, Bool.and_assoc]

theorem placeholder_eq_none {v : Value} : placeholder v = none ↔ hasListKey v = false := by
  cases v with
  | leaf l => exact ⟨fun _ => rfl, fun _ => rfl⟩
  | arr items => exact ⟨fun _ => rfl, fun _ => rfl⟩
  | obj members =>
    rw [placeholder, hasListKey, Option.map_eq_none_iff, Option.isSome_eq_false_iff,
      Option.isNone_iff_eq_none]

/-! ## Digests -/

namespace Tree

/-- The number of times that a digest is in a tree of a value is the number of times that it is in
the payload and in the values of the disclosures. -/
def CountsAt (map : DisclosureMap) (digest : String) (t : Tree) : Prop :=
  ∀ path, t.isValue → t.Fits map path → t.payload.Distinct → t.digests.count digest =
    (foundDigests t.payload).count digest + (t.contents.flatMap (foundDigests ·.2)).count digest

theorem count_items (hm : DistinctValues map) {items : List Tree} {path digest : String} {idx : ℕ}
    (hfit : FitItems map path idx items) (hd : ∀ x ∈ payloadItems items, x.Distinct)
    (ih : ∀ t ∈ items, CountsAt map digest t.core) : (digestsItems items).count digest =
      (foundInItems (payloadItems items)).count digest +
        ((contentsItems items).flatMap (foundDigests ·.2)).count digest := by
  induction items generalizing idx with
  | nil => rfl
  | cons t items ihs =>
    obtain ⟨hitem, ht, hitems⟩ := hfit
    obtain ⟨iht, ihitems⟩ := List.forall_mem_cons.mp ih
    obtain ⟨hdt, hditems⟩ := List.forall_mem_cons.mp hd
    have hrest := ihs hitems hditems ihitems
    rcases itemFits_cases hitem with ⟨hash, rfl, -⟩ | ⟨hash, content, rfl, hdis⟩ | ⟨hv, hph⟩
    · simp [digestsItems, digests, contentsItems, contents, payloadItems, payload,
        foundInItems, foundDigests, foundInMembers, placeholder_digest, List.count_cons, hrest]
      omega
    · rw [core, core_of_isValue ht.1] at iht
      have hcontent := iht _ ht.1 ht.2 (hm.disclosed hdis)
      simp [digestsItems, digests, contentsItems, contents, payloadItems, payload, foundInItems,
        foundDigests, foundInMembers, placeholder_digest, List.count_cons, hrest, hcontent]
      omega
    · rw [core_of_isValue hv] at iht
      have hcount := iht _ hv ht hdt
      simp [digestsItems, contentsItems, payloadItems, foundInItems, hph, hrest, hcount]
      omega

theorem count_sd (hm : DistinctValues map) {sd : List (String × Tree)} {path digest : String}
    (hfit : FitDigests map path sd) (ih : ∀ m ∈ sd, CountsAt map digest m.2.core) :
    (digestsMembers sd).count digest = (sd.map (·.2.digest)).count digest +
      ((contentsMembers sd).flatMap (foundDigests ·.2)).count digest := by
  induction sd with
  | nil => rfl
  | cons m sd ihs =>
    obtain ⟨key, t⟩ := m
    obtain ⟨hdig, ht, hsd⟩ := hfit
    obtain ⟨iht, ihsd⟩ := List.forall_mem_cons.mp ih
    have hrest := ihs hsd ihsd
    rcases digestFits_cases hdig with ⟨hash, rfl, -⟩ | ⟨hash, content, rfl, hdis⟩
    · simp [digestsMembers, digests, contentsMembers, contents, Tree.digest, List.count_cons, hrest]
      omega
    · rw [core, core_of_isValue ht.1] at iht
      have hcontent := iht _ ht.1 ht.2 (hm.disclosed hdis)
      simp [digestsMembers, digests, contentsMembers, contents, Tree.digest, List.count_cons,
        hrest, hcontent]
      omega

theorem count_members {members : List (String × Tree)} {path digest : String} (_sd : Value)
    (hfit : FitMembers map path members) (hd : ∀ m ∈ payloadMembers _sd members, m.2.Distinct)
    (ih : ∀ m ∈ members, CountsAt map digest m.2.core) :
    (digestsMembers members).count digest +
        (keys members).count SD_DIGEST * ((SdJwt.digestList _sd).getD []).count digest =
      (foundInMembers (payloadMembers _sd members)).count digest +
        ((contentsMembers members).flatMap (foundDigests ·.2)).count digest := by
  induction members with
  | nil => simp [digestsMembers, payloadMembers, foundInMembers, contentsMembers]
  | cons m members ihs =>
    obtain ⟨key, t⟩ := m
    obtain ⟨hmember, ht, hmembers⟩ := hfit
    obtain ⟨iht, ihmembers⟩ := List.forall_mem_cons.mp ih
    rcases memberFits_cases hmember with ⟨rfl, rfl⟩ | ⟨v, rfl, rfl⟩ | ⟨hv, hdig, hlist, -⟩
    · have hrest := ihs hmembers (fun m hm => hd m (List.mem_cons_of_mem _ hm)) ihmembers
      simp [digestsMembers, digests, contentsMembers, contents, payloadMembers,
        foundInMembers, Nat.succ_mul]
      omega
    · have hrest := ihs hmembers (fun m hm => hd m (List.mem_cons_of_mem _ hm)) ihmembers
      simpa [digestsMembers, digests, contentsMembers, contents, payloadMembers, foundInMembers,
        List.count_cons] using hrest
    · rw [payloadMembers_cons_of_isValue hv] at hd ⊢
      obtain ⟨hdt, hdmembers⟩ := List.forall_mem_cons.mp hd
      have hrest := ihs hmembers hdmembers ihmembers
      rw [core_of_isValue hv] at iht
      have hcount := iht _ hv ht hdt
      simp [digestsMembers, contentsMembers, foundInMembers, hdig, hlist, hcount]
      omega

/-- The digests of a tree are those in the payload and in the values of its disclosures. -/
theorem countsAt_core (hm : DistinctValues map) (digest : String) (t : Tree) :
    CountsAt map digest t.core := by
  induction t with
  | leaf l => exact fun _ _ _ _ => rfl
  | arr items ih =>
    rintro path - hfit hd
    cases hd with | arr hd =>
    exact count_items hm hfit hd ih
  | obj members sd ih ihsd =>
    show CountsAt map digest (obj members sd)
    rintro path - ⟨hmembers, hsd, hdig, -⟩ hd
    cases hd with | obj hn hd =>
    have hms := count_members (digestValues sd) hmembers hd ih
    have hcount := count_sd hm hsd ihsd
    have hlist : SdJwt.digestList (digestValues sd) = some (sd.map (·.2.digest)) := by
      rw [← digestList_strings, List.map_map]
      rfl
    have hone : (keys members).count SD_DIGEST * (sd.map (·.2.digest)).count digest =
        (sd.map (·.2.digest)).count digest := by
      by_cases hne : sd = []
      · simp [hne]
      · rw [keys_payloadMembers] at hn
        rw [List.count_eq_one_of_mem hn (hdig hne), Nat.one_mul]
    rw [hlist, Option.getD_some, hone] at hms
    simp [digests, contents, payload, foundDigests, hcount]
    omega
  | raw v => exact fun _ hv => by cases hv
  | digestList => exact fun _ hv => by cases hv
  | hidden hash => exact fun _ hv => by cases hv
  | disclosed hash content ih => exact ih

/-! ## Disclosures -/

/-- A disclosure in a tree that the map fits is what the map gives for its digest. -/
theorem disclosed_of_mem_contents {t : Tree} {path : String} (hv : t.isValue)
    (hfit : Fits map path t) :
    ∀ c ∈ t.contents, ∃ key, SdJwt.disclosed map c.1 = some (key, c.2) := by
  refine parts_induction (motive := fun t => ∀ c ∈ t.contents, ∃ key, SdJwt.disclosed map c.1 =
    some (key, c.2)) (fun t _ hv _ ih c hc => ?_) hv hfit
  rw [contents_eq_parts hv] at hc
  obtain ⟨p, hp, hc⟩ := List.mem_flatMap.mp hc
  rcases ih p hp with (rfl | ⟨v, rfl⟩) | ⟨-, ih⟩ | ⟨hash, rfl, -⟩ | ⟨hash, content, key,
    rfl, hdis, -, ih⟩
  · cases hc
  · cases hc
  · exact ih c hc
  · cases hc
  · rcases List.mem_cons.mp hc with rfl | hc
    · exact ⟨key, hdis⟩
    · exact ih c hc

/-- A digest in a tree that the map fits belongs to a disclosure of the tree, or to none. -/
theorem mem_contents_of_mem_digests {t : Tree} {path : String} (hv : t.isValue)
    (hfit : Fits map path t) :
    ∀ hash ∈ t.digests, hash ∈ keys t.contents ∨ SdJwt.disclosed map hash = none := by
  refine parts_induction (motive := fun t => ∀ hash ∈ t.digests, hash ∈ keys t.contents ∨
    SdJwt.disclosed map hash = none) (fun t _ hv _ ih hash hh => ?_) hv hfit
  rw [contents_eq_parts hv]
  rw [digests_eq_parts hv] at hh
  obtain ⟨p, hp, hh⟩ := List.mem_flatMap.mp hh
  have hsub : p.contents ⊆ t.parts.flatMap contents := fun c hc => List.mem_flatMap.mpr ⟨p, hp, hc⟩
  rcases ih p hp with (rfl | ⟨v, rfl⟩) | ⟨-, ih⟩ | ⟨hash', rfl, hdis⟩ | ⟨hash', content,
    key, rfl, -, -, ih⟩
  · cases hh
  · cases hh
  · exact (ih hash hh).imp_left (List.map_subset _ hsub ·)
  · obtain rfl := List.mem_singleton.mp hh
    exact .inr hdis
  · rcases List.mem_cons.mp hh with rfl | hh
    · exact .inl (mem_keys_of_mem (hsub List.mem_cons_self))
    · exact (ih hash hh).imp_left fun h => List.map_subset _ hsub (List.mem_cons_of_mem _ h)

/-- The digests of the disclosures are digests of the tree. -/
theorem keys_contents_sublist {t : Tree} {path : String} (hv : t.isValue) (hfit : Fits map path t) :
    List.Sublist (keys t.contents) t.digests := by
  refine parts_induction (motive := fun t => List.Sublist (keys t.contents) t.digests)
    (fun t _ hv _ ih => ?_) hv hfit
  rw [contents_eq_parts hv, digests_eq_parts hv, keys, List.map_flatMap]
  refine List.Sublist.flatMap_right _ fun p hp => ?_
  rcases ih p hp with (rfl | ⟨v, rfl⟩) | ⟨-, ih⟩ | ⟨hash, rfl, -⟩ | ⟨hash, content,
    key, rfl, -, -, ih⟩
  · exact .slnil
  · exact .slnil
  · exact ih
  · exact List.nil_sublist _
  · exact ih.cons_cons _

theorem found_of_mem_items {items : List Value} {x : Value} (h : x ∈ items) :
    (placeholder x).join.toList ++ foundDigests x ⊆ foundInItems items := by
  induction items with
  | nil => cases h
  | cons y items ih =>
    rcases List.mem_cons.mp h with rfl | h
    · exact List.subset_append_left _ _
    · exact List.Subset.trans (ih h) (List.subset_append_right _ _)

theorem found_of_mem_members {members : List (String × Value)} {m : String × Value}
    (h : m ∈ members) :
    (if m.1 = SD_DIGEST then (SdJwt.digestList m.2).getD []
      else if m.1 = SD_LIST_KEY then [] else foundDigests m.2) ⊆ foundInMembers members := by
  induction members with
  | nil => cases h
  | cons m' members ih =>
    rcases List.mem_cons.mp h with rfl | h
    · exact List.subset_append_left _ _
    · exact List.Subset.trans (ih h) (List.subset_append_right _ _)

theorem mem_payloadMembers {members : List (String × Tree)} (_sd : Value) {m : String × Tree}
    (h : m ∈ members) (hv : m.2.isValue) : (m.1, m.2.payload) ∈ payloadMembers _sd members := by
  induction members with
  | nil => cases h
  | cons m' members ih =>
    obtain ⟨key, t⟩ := m'
    rcases List.mem_cons.mp h with rfl | hmem
    · rw [payloadMembers_cons_of_isValue hv]
      exact List.mem_cons_self
    · cases t <;> exact List.mem_cons_of_mem _ (ih hmem)

theorem mem_payloadMembers_raw {members : List (String × Tree)} (_sd : Value)
    {key : String} {v : Value} (h : (key, raw v) ∈ members) :
    (key, v) ∈ payloadMembers _sd members := by
  induction members with
  | nil => cases h
  | cons m' members ih =>
    obtain ⟨name, t⟩ := m'
    rcases List.mem_cons.mp h with heq | hmem
    · cases heq
      exact List.mem_cons_self
    · cases t <;> exact List.mem_cons_of_mem _ (ih hmem)

/-- The digests of a part are found in the value that it is a part of. -/
theorem found_part {t : Tree} {path : String} (hv : t.isValue) (hfit : Fits map path t) {p : Tree}
    (hp : p ∈ t.parts) : (p.isValue → foundDigests p.payload ⊆ foundDigests t.payload) ∧
      ((∃ hash, p = hidden hash) ∨ (∃ hash content, p = disclosed hash content) →
        p.digest ∈ foundDigests t.payload) := by
  cases t with
  | leaf l => cases hp
  | raw v => cases hv
  | digestList => cases hv
  | hidden hash => cases hv
  | disclosed hash content => cases hv
  | arr items =>
    have hmem : p.payload ∈ payloadItems items := by
      rw [payloadItems_eq]
      exact List.mem_map_of_mem hp
    refine ⟨fun _ => List.Subset.trans (List.subset_append_right _ _) (found_of_mem_items hmem),
      fun hdig => ?_⟩
    refine found_of_mem_items hmem (List.mem_append_left _ ?_)
    rcases hdig with ⟨hash, rfl⟩ | ⟨hash, content, rfl⟩
    · simp [payload, placeholder_digest, Tree.digest]
    · simp [payload, placeholder_digest, Tree.digest]
  | obj members sd =>
    rcases List.mem_append.mp hp with hp | hp
    · obtain ⟨m, hm, rfl⟩ := List.mem_map.mp hp
      obtain ⟨hmember, -⟩ := forall_fitMembers hfit.1 m hm
      constructor
      · intro hvm
        rcases memberFits_cases hmember with ⟨ht, -⟩ | ⟨v, ht, -⟩ | ⟨-, hdig, hlist, -⟩
        · rw [ht] at hvm
          cases hvm
        · rw [ht] at hvm
          cases hvm
        · have hfound := found_of_mem_members (mem_payloadMembers (digestValues sd) hm hvm)
          rwa [if_neg hdig, if_neg hlist] at hfound
      · rintro (⟨hash, ht⟩ | ⟨hash, content, ht⟩)
        · rw [ht] at hmember
          cases hmember.1
        · rw [ht] at hmember
          cases hmember.1
    · obtain ⟨m, hm, rfl⟩ := List.mem_map.mp hp
      obtain ⟨hdigest, -⟩ := forall_fitDigests hfit.2.1 m hm
      refine ⟨fun hvm => ?_, fun _ => ?_⟩
      · rcases digestFits_cases hdigest with ⟨hash, ht, -⟩ | ⟨hash, content, ht, -⟩
        · rw [ht] at hvm
          cases hvm
        · rw [ht] at hvm
          cases hvm
      · have hmem : (SD_DIGEST, digestValues sd) ∈ payloadMembers (digestValues sd) members := by
          refine mem_of_lookup ?_
          rw [lookup_payloadMembers hfit.1, if_pos (hfit.2.2.1 (List.ne_nil_of_mem hm))]
        have hfound := found_of_mem_members hmem
        have hlist : SdJwt.digestList (digestValues sd) = some (sd.map (·.2.digest)) := by
          rw [← digestList_strings, List.map_map]
          rfl
        rw [if_pos rfl, hlist] at hfound
        exact hfound (List.mem_map_of_mem hm)

/-- All digests of a tree are reached from its payload. -/
theorem reached_of_mem_digests {t : Tree} {path : String} (hv : t.isValue) (hfit : Fits map path t)
    (obj : Value) (hfound : ∀ hash ∈ foundDigests t.payload, Reached map obj hash) :
    ∀ hash ∈ t.digests, Reached map obj hash := by
  refine parts_induction
    (motive := fun t => (∀ hash ∈ foundDigests t.payload, Reached map obj hash) →
    ∀ hash ∈ t.digests, Reached map obj hash)
      (fun t path hv hfit ih hfound hash hh => ?_) hv hfit hfound
  rw [digests_eq_parts hv] at hh
  obtain ⟨p, hp, hh⟩ := List.mem_flatMap.mp hh
  obtain ⟨hvalue, hdigest⟩ := found_part hv hfit hp
  rcases ih p hp with (rfl | ⟨v, rfl⟩) | ⟨hvp, ih⟩ | ⟨hash', rfl, -⟩ | ⟨hash', content, key,
    rfl, hdis, -, ih⟩
  · cases hh
  · cases hh
  · exact ih (fun hash hmem => hfound hash (hvalue hvp hmem)) hash hh
  · obtain rfl := List.mem_singleton.mp hh
    exact hfound hash (hdigest (.inl ⟨hash, rfl⟩))
  · have hreached : Reached map obj hash' := hfound hash' (hdigest (.inr ⟨hash', content, rfl⟩))
    rcases List.mem_cons.mp hh with rfl | hh
    · exact hreached
    · refine ih (fun hash hmem => ?_) hash hh
      rcases disclosed_eq_some hdis with ⟨d, hd, -, hvalue⟩ | ⟨-, -, -, hvalue⟩
      · exact .disclosure hreached hd (hvalue ▸ hmem)
      · rw [hvalue] at hmem
        cases hmem

/-! ## What is left in the claims -/

/-- The names that the digests of an object disclose are not reserved. -/
theorem not_reserved_of_mem_keys {path key : String} {sd : List (String × Tree)}
    (hfit : FitDigests map path sd) (hk : key ∈ keys (claimsMembers sd)) :
    key ≠ SD_DIGEST ∧ key ≠ SD_LIST_KEY := by
  induction sd with
  | nil => cases hk
  | cons m sd ih =>
    obtain ⟨name, t⟩ := m
    obtain ⟨hdig, ht, hsd⟩ := hfit
    rw [claimsMembers, keys, List.map_append] at hk
    rcases List.mem_append.mp hk with hk | hk
    · rcases digestFits_cases hdig with ⟨hash, rfl, -⟩ | ⟨hash, content, rfl, hdis⟩
      · cases hk
      · obtain ⟨v, hv⟩ := exists_claims ht.1
        obtain rfl : key = name := by simpa [claims, hv] using hk
        exact disclosed_not_reserved hdis
    · exact ih hsd hk

theorem hasListKey_obj {members : List (String × Value)} :
    hasListKey (.obj members) = true ↔ SD_LIST_KEY ∈ keys members := lookup_isSome_iff

/-- The members `...` stay in the claims. -/
theorem hasListKey_claims {t : Tree} {path : String} {v : Value} (hfit : Fits map path t)
    (hc : t.claims = some v) (hv : t.isValue) : hasListKey v = hasListKey t.payload := by
  cases t with
  | leaf l => cases hc; rfl
  | arr items => cases hc; rfl
  | raw v => cases hv
  | digestList => cases hv
  | hidden hash => cases hv
  | disclosed hash content => cases hv
  | obj members sd =>
    cases hc
    rw [Bool.eq_iff_iff, payload, hasListKey_obj, hasListKey_obj, keys_payloadMembers, keys,
      List.map_append, List.mem_append]
    constructor
    · rintro (h | h)
      · exact keys_claimsMembers_subset members h
      · exact absurd rfl (not_reserved_of_mem_keys hfit.2.1 h).2
    · exact fun h => .inl (mem_keys_claimsMembers hfit.1 h listKey_ne_digest)

/-- Nothing unprocessed comes from a disclosure. -/
def ContentProcessed (map : DisclosureMap) (c : String × Value) : Prop :=
  strayProcessed c.2 ∧ (SdJwt.disclosed map c.1 = some (none, c.2) → hasListKey c.2 = false)

/-- The claims of a tree are processed when nothing unprocessed comes from its payload and from its
disclosures. -/
def ProcessedAt (map : DisclosureMap) (t : Tree) : Prop :=
  ∀ v, t.claims = some v →
    (processed v ↔ strayProcessed t.payload ∧ ∀ c ∈ t.contents, ContentProcessed map c) ∧
      hasListKey v = hasListKey t.payload

theorem processed_items {items : List Tree}
    (h : ∀ t ∈ items, ItemFits map t ∧ Part (ProcessedAt map) t) :
    itemsProcessed (claimsItems items) ↔ itemsStrayProcessed (payloadItems items) ∧
      ∀ c ∈ contentsItems items, ContentProcessed map c := by
  induction items with
  | nil => simp [claimsItems, itemsProcessed, payloadItems, itemsStrayProcessed, contentsItems]
  | cons t items ih =>
    obtain ⟨⟨hitem, hpart⟩, hitems⟩ := List.forall_mem_cons.mp h
    have hrest := ih hitems
    rw [claimsItems, payloadItems, itemsStrayProcessed, contentsItems, List.forall_mem_append,
      Bool.and_eq_true]
    rcases itemFits_cases hitem with ⟨hash, rfl, -⟩ | ⟨hash, content, rfl, hdis⟩ | ⟨hv, hph⟩
    · have hstray : strayProcessed (payload (hidden hash)) = true := rfl
      simp [claims, contents, hstray, hrest]
    · obtain ⟨v, hc⟩ := exists_claims hpart.1
      obtain ⟨hiff, hkey⟩ := hpart.2 v hc
      have hstray : strayProcessed (payload (disclosed hash content)) = true := rfl
      simp [claims, contents, hstray, hc, itemsProcessed, hkey, hiff, ContentProcessed, hdis, hrest]
      tauto
    · obtain ⟨v, hc⟩ := exists_claims hv
      obtain ⟨hiff, hkey⟩ := part_of_isValue hv hpart v hc
      have hlist : hasListKey v = false := hkey.trans (placeholder_eq_none.mp hph)
      simp [hc, itemsProcessed, hlist, hiff, hrest]
      tauto

theorem processed_members {path : String} {members : List (String × Tree)} {_sd : Value}
    (hsd : strayProcessed _sd)
    (h : ∀ m ∈ members, MemberFits path m.1 m.2 ∧ Part (ProcessedAt map) m.2) :
    membersProcessed (claimsMembers members) ↔ membersStrayProcessed (payloadMembers _sd members) ∧
      ∀ c ∈ contentsMembers members, ContentProcessed map c := by
  induction members with
  | nil => simp [claimsMembers, membersProcessed, payloadMembers, membersStrayProcessed,
      contentsMembers]
  | cons m members ih =>
    obtain ⟨key, t⟩ := m
    obtain ⟨⟨hmember, hpart⟩, hmembers⟩ := List.forall_mem_cons.mp h
    have hrest := ih hmembers
    rw [claimsMembers, contentsMembers, List.forall_mem_append]
    rcases memberFits_cases hmember with ⟨rfl, rfl⟩ | ⟨v, rfl, rfl⟩ | ⟨hv, hdig, hlist, -⟩
    · simp [claims, payloadMembers, membersStrayProcessed, contents, hsd, hrest]
    · simp [claims, payloadMembers, membersStrayProcessed, membersProcessed, payload,
        contents, hrest]
      tauto
    · obtain ⟨v, hc⟩ := exists_claims hv
      obtain ⟨hiff, -⟩ := part_of_isValue hv hpart v hc
      rw [payloadMembers_cons_of_isValue hv]
      simp [hc, membersProcessed, membersStrayProcessed, hdig, hlist, hiff, hrest]
      tauto

theorem processed_sd {path : String} {sd : List (String × Tree)} (hfit : FitDigests map path sd)
    (h : ∀ m ∈ sd, DigestFits map m.1 m.2 ∧ Part (ProcessedAt map) m.2) :
    membersProcessed (claimsMembers sd) ↔ ∀ c ∈ contentsMembers sd, ContentProcessed map c := by
  induction sd with
  | nil => simp [claimsMembers, membersProcessed, contentsMembers]
  | cons m sd ih =>
    obtain ⟨key, t⟩ := m
    obtain ⟨⟨hdigest, hpart⟩, hsd⟩ := List.forall_mem_cons.mp h
    have hrest := ih hfit.2.2 hsd
    rw [claimsMembers, contentsMembers, List.forall_mem_append]
    rcases digestFits_cases hdigest with ⟨hash, rfl, -⟩ | ⟨hash, content, rfl, hdis⟩
    · simp [claims, contents, hrest]
    · obtain ⟨v, hc⟩ := exists_claims hpart.1
      obtain ⟨hiff, -⟩ := hpart.2 v hc
      have hdig : key ≠ SD_DIGEST := (disclosed_not_reserved hdis).1
      simp [claims, contents, hc, membersProcessed, hdig, hiff, ContentProcessed, hdis, hrest]

theorem strayProcessed_digestValues (sd : List (String × Tree)) :
    strayProcessed (digestValues sd) = true := by
  rw [digestValues, strayProcessed]
  induction sd with
  | nil => rfl
  | cons m sd ih => rw [List.map_cons, itemsStrayProcessed, ih]; rfl

theorem processedAt {t : Tree} {path : String} (hv : t.isValue) (hfit : Fits map path t) :
    ProcessedAt map t := by
  refine fits_induction (motive := ProcessedAt map) (fun l v hc => ?_)
    (fun path items hfit ih v hc => ?_) (fun path members sd hfit ih ihsd v hc => ?_) hv hfit
  · cases hc
    exact ⟨by simp [processed, payload, strayProcessed, contents], rfl⟩
  · refine ⟨?_, hasListKey_claims hfit hc rfl⟩
    cases hc
    exact processed_items ih
  · refine ⟨?_, hasListKey_claims hfit hc rfl⟩
    cases hc
    rw [processed, payload, strayProcessed, contents, List.forall_mem_append,
      membersProcessed_append, Bool.and_eq_true, processed_members
        (strayProcessed_digestValues sd) ih, processed_sd hfit.2.1 ihsd, and_assoc]

/-! ## Names in the claims -/

theorem mem_claimsItems {items : List Tree} {x : Value} (h : x ∈ claimsItems items) :
    ∃ t ∈ items, t.claims = some x := by
  induction items with
  | nil => cases h
  | cons t items ih =>
    rcases List.mem_append.mp h with h | h
    · exact ⟨t, List.mem_cons_self, by simpa using h⟩
    · obtain ⟨t, ht, hx⟩ := ih h
      exact ⟨t, List.mem_cons_of_mem _ ht, hx⟩

theorem mem_claimsMembers {members : List (String × Tree)} {m : String × Value}
    (h : m ∈ claimsMembers members) : ∃ t, (m.1, t) ∈ members ∧ t.claims = some m.2 := by
  induction members with
  | nil => cases h
  | cons m' members ih =>
    obtain ⟨key, t⟩ := m'
    rcases List.mem_append.mp h with h | h
    · obtain ⟨v, hv, rfl⟩ := by simpa using h
      exact ⟨t, List.mem_cons_self, hv⟩
    · obtain ⟨t, ht, hx⟩ := ih h
      exact ⟨t, List.mem_cons_of_mem _ ht, hx⟩

theorem keys_claimsMembers_sublist (members : List (String × Tree)) :
    List.Sublist (keys (claimsMembers members)) (keys members) := by
  induction members with
  | nil => exact .slnil
  | cons m members ih =>
    obtain ⟨key, t⟩ := m
    rw [claimsMembers, keys, List.map_append, keys_cons]
    cases hc : t.claims with
    | none => exact ih.cons _
    | some v => exact ih.cons_cons _

/-- The names are distinct in the claims when they are in the payload and in the disclosures. -/
theorem distinct_claims (hm : DistinctValues map) {t : Tree} {path : String} {v : Value}
    (hv : t.isValue) (hfit : Fits map path t) (hd : t.payload.Distinct) (hc : t.claims = some v) :
    v.Distinct := by
  refine fits_induction (motive := fun t => t.payload.Distinct →
    ∀ v, t.claims = some v → v.Distinct)
    (fun l hd v hc => ?_) (fun path items hfit ih hd v hc => ?_)
      (fun path members sd hfit ih ihsd hd v hc => ?_)
    hv hfit hd v hc
  · cases hc
    exact hd
  · cases hc
    cases hd with | arr hd =>
    refine .arr fun x hx => ?_
    obtain ⟨t, ht, hc⟩ := mem_claimsItems hx
    obtain ⟨hitem, hpart⟩ := ih t ht
    rcases itemFits_cases hitem with ⟨hash, rfl, -⟩ | ⟨hash, content, rfl, hdis⟩ | ⟨hv, -⟩
    · cases hc
    · exact hpart.2 (hm.disclosed hdis) x hc
    · refine part_of_isValue hv hpart (hd _ ?_) x hc
      rw [payloadItems_eq]
      exact List.mem_map_of_mem ht
  · cases hc
    cases hd with | obj hn hd =>
    obtain ⟨-, -, -, hnames, hnodup⟩ := hfit
    rw [keys_payloadMembers] at hn
    refine .obj ?_ fun m hmem => ?_
    · rw [keys, List.map_append]
      refine ((keys_claimsMembers_sublist members).nodup hn).append hnodup fun key hkey hsd => ?_
      exact (hnames key hsd).2 ((keys_claimsMembers_sublist members).subset hkey)
    · rcases List.mem_append.mp hmem with hmem | hmem
      · obtain ⟨t, ht, hc⟩ := mem_claimsMembers hmem
        obtain ⟨hmember, hpart⟩ := ih _ ht
        rcases memberFits_cases hmember with ⟨rfl, -⟩ | ⟨w, rfl, -⟩ | ⟨hv, -⟩
        · cases hc
        · cases hc
          exact hd _ (mem_payloadMembers_raw _ ht)
        · exact part_of_isValue hv hpart (hd _ (mem_payloadMembers _ ht hv)) _ hc
      · obtain ⟨t, ht, hc⟩ := mem_claimsMembers hmem
        obtain ⟨hdigest, hpart⟩ := ihsd _ ht
        rcases digestFits_cases hdigest with ⟨hash, rfl, -⟩ | ⟨hash, content, rfl, hdis⟩
        · cases hc
        · exact hpart.2 (hm.disclosed hdis) _ hc

end Tree

/-! ## The guarantees -/

/-- What RFC 9901 asks of a result: every digest is found once in the payload and the values of the
disclosures, those of disclosures are found and the disclosures are reached, names are distinct at
every level, no reserved name is disclosed, and no digests are left. -/
structure MeetsRfc (payload : Value) (map : DisclosureMap) (claims : Value) : Prop where
  found_once : ∀ m ∈ map,
    (foundDigests payload ++ map.flatMap (foundDigests ·.2.value)).count m.1 = 1
  used : ∀ m ∈ map, Reached map payload m.1
  distinct : claims.Distinct
  not_reserved : ∀ m ∈ map, ∀ key, m.2.key = some key → key ≠ SD_DIGEST ∧ key ≠ SD_LIST_KEY
  processed : SdJwt.processed claims = true

/-- With distinct digests, the disclosures of the map are the ones in the tree. -/
theorem contents_perm {t : Tree} (hv : t.isValue) (hfit : t.Fits map "") (hn : (keys map).Nodup)
    (hdigests : t.digests.Nodup) (hall : keys map ⊆ t.digests) :
    (t.contents.filter (·.1 ∈ keys map)).Perm (mapVal Disclosure.value map) := by
  have hcontents : t.contents.Nodup :=
    .of_map _ ((Tree.keys_contents_sublist hv hfit).nodup hdigests)
  have hmap : (mapVal Disclosure.value map).Nodup :=
    .of_map Prod.fst (show (keys (mapVal Disclosure.value map)).Nodup from keys_mapVal _ map ▸ hn)
  refine (List.perm_ext_iff_of_nodup (hcontents.filter _) hmap).mpr fun c => ?_
  obtain ⟨hash, value⟩ := c
  rw [List.mem_filter, mapVal, List.mem_map, decide_eq_true_eq]
  constructor
  · rintro ⟨hc, hmem⟩
    obtain ⟨key, hdis⟩ := Tree.disclosed_of_mem_contents hv hfit _ hc
    rcases disclosed_eq_some hdis with ⟨d, hd, -, hvalue⟩ | ⟨hnone, -⟩
    · exact ⟨(hash, d), mem_of_lookup hd, Prod.ext rfl hvalue⟩
    · exact absurd hmem (lookup_eq_none_iff.mp hnone)
  · rintro ⟨⟨hash, d⟩, hd, heq⟩
    cases heq
    have hmem : hash ∈ keys map := mem_keys_of_mem hd
    have hlookup : disclosed map hash = some (d.key, d.value) := by
      rw [disclosed, lookup_of_mem hn hd]
    refine ⟨?_, hmem⟩
    rcases Tree.mem_contents_of_mem_digests hv hfit hash (hall hmem) with h | h
    · obtain ⟨c, hc, rfl⟩ := List.mem_map.mp h
      obtain ⟨key, hdis⟩ := Tree.disclosed_of_mem_contents hv hfit _ hc
      rw [hlookup] at hdis
      rw [(Prod.mk.inj (Option.some.inj hdis)).2]
      exact hc
    · rw [hlookup] at h
      cases h

/-- The digests in the disclosures of a tree are those in the disclosures of the map, since what is
inherited has no digests. -/
theorem count_contents {t : Tree} (hv : t.isValue) (hfit : t.Fits map "") (hn : (keys map).Nodup)
    (hdigests : t.digests.Nodup) (hall : keys map ⊆ t.digests) (hash : String) :
    (t.contents.flatMap (foundDigests ·.2)).count hash =
      (map.flatMap (foundDigests ·.2.value)).count hash := by
  have hown : t.contents.flatMap (foundDigests ·.2) =
      (t.contents.filter (·.1 ∈ keys map)).flatMap (foundDigests ·.2) := by
    have hsub := Tree.disclosed_of_mem_contents hv hfit
    clear hdigests hall
    generalize t.contents = contents at hsub ⊢
    induction contents with
    | nil => rfl
    | cons c contents ih =>
      obtain ⟨⟨key, hdis⟩, hcontents⟩ := List.forall_mem_cons.mp hsub
      rw [List.flatMap_cons, ih hcontents]
      rcases disclosed_eq_some hdis with ⟨d, hd, -⟩ | ⟨hnone, -, -, hvalue⟩
      · rw [List.filter_cons_of_pos (by simpa using mem_keys_of_mem (mem_of_lookup hd)),
          List.flatMap_cons]
      · rw [List.filter_cons_of_neg (by simpa using lookup_eq_none_iff.mp hnone), hvalue]
        rfl
  rw [hown, ((contents_perm hv hfit hn hdigests hall).flatMap_right _).count_eq, mapVal,
    List.flatMap_map]

/-- Whether anything unprocessed comes from the disclosures is read off the map. -/
theorem forall_contentProcessed {t : Tree} (hv : t.isValue) (hfit : t.Fits map "")
    (hn : (keys map).Nodup) (hdigests : t.digests.Nodup) (hall : keys map ⊆ t.digests) :
    (∀ c ∈ t.contents, Tree.ContentProcessed map c) ↔
      ∀ m ∈ map, strayProcessed m.2.value ∧ (m.2.key = none → hasListKey m.2.value = false) := by
  have hperm := contents_perm hv hfit hn hdigests hall
  constructor
  · intro h m hm
    have hlookup : disclosed map m.1 = some (m.2.key, m.2.value) := by
      rw [disclosed, lookup_of_mem hn hm]
    have hmem : (m.1, m.2.value) ∈ t.contents.filter (·.1 ∈ keys map) :=
      hperm.mem_iff.mpr (List.mem_map_of_mem hm)
    obtain ⟨hstray, hkey⟩ := h _ (List.mem_of_mem_filter hmem)
    exact ⟨hstray, fun hk => hkey (by rw [hlookup, hk])⟩
  · intro h c hc
    obtain ⟨key, hdis⟩ := Tree.disclosed_of_mem_contents hv hfit c hc
    rcases disclosed_eq_some hdis with ⟨d, hd, rfl, hvalue⟩ | ⟨-, -, -, hvalue⟩
    · obtain ⟨hstray, hkey⟩ := h _ (mem_of_lookup hd)
      rw [Tree.ContentProcessed, ← hvalue]
      refine ⟨hstray, fun hnone => hkey ?_⟩
      rw [hvalue] at hnone
      exact (Prod.mk.inj (Option.some.inj (hdis.symm.trans hnone))).1
    · rw [Tree.ContentProcessed, hvalue]
      exact ⟨rfl, fun _ => rfl⟩

/-- Processing terminates, and a result meets RFC 9901 when no member `...` holds what is not
processed. -/
theorem processing {payload : Value} {map : DisclosureMap} (hj : payload.IsJson)
    (hm : ∀ m ∈ map, m.2.value.IsJson) (hn : (keys map).Nodup) :
    (∀ n, depthBound map ≤ n → unpackObjN n payload map = unpackObj payload map ∧
      unpackObj payload map ≠ .error .outOfFuel) ∧
    ∀ r, unpackObj payload map = .ok r →
    (MeetsRfc payload map r.unpackedObj ↔ noStray payload map) := by
  have hdm : DistinctValues map := fun m hmem => (hm m hmem).distinct
  refine ⟨fun n hle => unpackObjN_eq hdm hj.distinct hle, fun r hr => ?_⟩
  obtain ⟨t, hv, rfl, hfit, hdigests, hall, hc, -⟩ := (unpackObj_eq_ok hdm hj.distinct).mp hr
  have hprocessed : processed r.unpackedObj ↔ noStray t.payload map := by
    rw [((Tree.processedAt hv hfit) _ hc).1,
      forall_contentProcessed hv hfit hn hdigests hall, noStray, Bool.and_eq_true, List.all_eq_true]
    refine and_congr_right fun _ => forall₂_congr fun m _ => ?_
    rw [Bool.and_eq_true, Bool.or_eq_true, Bool.not_eq_true', Option.isSome_iff_ne_none]
    tauto
  refine ⟨fun h => hprocessed.mp h.processed, fun h => ⟨fun m hmem => ?_, fun m hmem => ?_, ?_, ?_,
    hprocessed.mpr h⟩⟩
  · have hcount := Tree.countsAt_core hdm m.1 t
    rw [Tree.core_of_isValue hv] at hcount
    rw [List.count_append, ← count_contents hv hfit hn hdigests hall,
      ← hcount _ hv hfit hj.distinct]
    exact List.count_eq_one_of_mem hdigests (hall (mem_keys_of_mem hmem))
  · exact Tree.reached_of_mem_digests hv hfit _ (fun _ hh => .payload hh) _
      (hall (mem_keys_of_mem hmem))
  · exact Tree.distinct_claims hdm hv hfit hj.distinct hc
  · exact fun m _ key hk => m.2.key_not_reserved key hk

/-- A member `...` can hold a member `_sd`. -/
def digestsInListKey : Value := .obj [(SD_LIST_KEY, .obj [(SD_DIGEST, .arr [.str "digest"])])]

theorem digestsInListKey_not_processed :
    ∃ r, unpackObj digestsInListKey [] = .ok r ∧ ¬ MeetsRfc digestsInListKey [] r.unpackedObj := by
  refine ⟨⟨digestsInListKey, []⟩, rfl, fun h => ?_⟩
  have hp := h.processed
  revert hp
  decide

/-- A payload with the digest of an address. -/
def addressPayload : Value := .obj [("iss", .str "a"), (SD_DIGEST, .arr [.str "address"])]

/-- The address, and a member and an element that are disclosed in it. -/
def addressDisclosures : DisclosureMap := [
  ("address", { salt := "1", key := some "address", value := .obj [("country", .str "DE"),
    ("codes", .arr [.obj [(SD_LIST_KEY, .str "code")]]), (SD_DIGEST, .arr [.str "street"])] }),
  ("code", {
    salt := "2", key := none, value := .str "55555"
    key_not_reserved := Disclosure.none_not_reserved }),
  ("street", { salt := "3", key := some "street_address", value := .str "Schulstr. 12" })]

def addressUnpacked : Unpacked where
  unpackedObj := .obj [("iss", .str "a"),
    ("address", .obj [("country", .str "DE"), ("codes", .arr [.str "55555"]),
      ("street_address", .str "Schulstr. 12")])]
  disclosureKeymap := [("address", "address"), ("address.codes.0", "code"),
    ("address.street_address", "street")]

theorem addressDisclosures_isJson : ∀ m ∈ addressDisclosures, m.2.value.IsJson := fun _ hm =>
  .of_isJson
    (List.all_eq_true.mp (show addressDisclosures.all (·.2.value.isJson) = true by decide) _ hm)

theorem unpackObj_address : unpackObj addressPayload addressDisclosures = .ok addressUnpacked := rfl

theorem processing_address :
    MeetsRfc addressPayload addressDisclosures addressUnpacked.unpackedObj :=
  ((processing (.of_isJson (by decide)) addressDisclosures_isJson (by decide)).2 _
    unpackObj_address).mpr (by decide)

end IdentityCommon.SdJwt
