import IdentityCommon.SdJwt.Decode

/-!
# Credentials as trees

What an SD-JWT says: a value in which members and array elements can be disclosable, and some of
them are disclosed. The payload, the claims, the digests and the paths of the disclosures are
functions of the tree.

## Main definitions

- `Tree` — a credential together with what is disclosed of it
- `Tree.isValue`, `Tree.core` — the trees of values
- `Tree.payload`, `Tree.claims` — what is signed and what is revealed
- `Tree.digests`, `Tree.contents`, `Tree.log` — the digests, the disclosures that were used, and
  the paths of the claims they reveal
- `Tree.Fits` — a map of disclosures gives exactly the disclosed parts of a tree

## Design notes

The two lists of an object are its members in the payload, where `digestList` stands for `_sd`, and
what the digests of `_sd` are; an element of the second that is hidden has no name.
-/

namespace IdentityCommon.SdJwt

open Ecma Value AssocList

inductive Tree
  | leaf (l : Leaf)
  | arr (items : List Tree)
  | obj (members sd : List (String × Tree))
  /-- The value of a member `...`, which is not processed. -/
  | raw (v : Value)
  /-- The value of the member `_sd`. -/
  | digestList
  /-- A digest without a disclosure. -/
  | hidden (digest : String)
  /-- A digest whose disclosure has the content as its value. -/
  | disclosed (digest : String) (content : Tree)

namespace Tree

@[induction_eliminator, elab_as_elim]
theorem induction {motive : Tree → Prop} (leaf : ∀ l, motive (leaf l))
    (arr : ∀ items, (∀ t ∈ items, motive t) → motive (arr items))
    (obj : ∀ members sd, (∀ m ∈ members, motive m.2) → (∀ m ∈ sd, motive m.2) →
      motive (obj members sd))
    (raw : ∀ v, motive (raw v)) (digestList : motive digestList)
    (hidden : ∀ digest, motive (hidden digest))
    (disclosed : ∀ digest content, motive content → motive (disclosed digest content)) :
    ∀ t, motive t :=
  Tree.rec (motive_1 := motive) (motive_2 := fun items => ∀ t ∈ items, motive t)
    (motive_3 := fun members => ∀ m ∈ members, motive m.2) (motive_4 := fun m => motive m.2)
    leaf arr obj raw digestList hidden disclosed (by simp)
    (fun _ _ h hs => List.forall_mem_cons.mpr ⟨h, hs⟩) (by simp)
    (fun _ _ h hs => List.forall_mem_cons.mpr ⟨h, hs⟩) (fun _ _ h => h)

/-- The trees of values. -/
def isValue : Tree → Bool
  | leaf _ | arr _ | obj _ _ => true
  | _ => false

/-- The tree without the disclosures around it. -/
def core : Tree → Tree
  | disclosed _ content => core content
  | t => t

theorem core_of_isValue {t : Tree} (h : t.isValue) : t.core = t := by
  cases t with
  | disclosed digest content => cases h
  | _ => rfl

def digest : Tree → String
  | hidden digest | disclosed digest _ => digest
  | _ => ""

/-! ## What is signed -/

def digestValues (sd : List (String × Tree)) : Value := .arr (sd.map fun m => .str m.2.digest)

mutual

def payload : Tree → Value
  | leaf l => .leaf l
  | arr items => .arr (payloadItems items)
  | obj members sd => .obj (payloadMembers (digestValues sd) members)
  | raw v => v
  | digestList => undefined
  | hidden digest | disclosed digest _ => .obj [(SD_LIST_KEY, .str digest)]

def payloadItems : List Tree → List Value
  | [] => []
  | t :: items => payload t :: payloadItems items

/-- The members, with the value of `_sd`. -/
def payloadMembers (_sd : Value) : List (String × Tree) → List (String × Value)
  | [] => []
  | (key, digestList) :: members => (key, _sd) :: payloadMembers _sd members
  | (key, t) :: members => (key, payload t) :: payloadMembers _sd members

end

theorem keys_payloadMembers (_sd : Value) (members : List (String × Tree)) :
    keys (payloadMembers _sd members) = keys members := by
  induction members with
  | nil => rfl
  | cons m members ih =>
    obtain ⟨key, t⟩ := m
    cases t <;> exact congrArg _ ih

/-! ## What is revealed -/

mutual

def claims : Tree → Option Value
  | leaf l => some (.leaf l)
  | arr items => some (.arr (claimsItems items))
  | obj members sd => some (.obj (claimsMembers members ++ claimsMembers sd))
  | raw v => some v
  | digestList | hidden _ => none
  | disclosed _ content => claims content

def claimsItems : List Tree → List Value
  | [] => []
  | t :: items => (claims t).toList ++ claimsItems items

def claimsMembers : List (String × Tree) → List (String × Value)
  | [] => []
  | (key, t) :: members => ((claims t).map (key, ·)).toList ++ claimsMembers members

end

mutual

/-- The digests in the payload and in the values of the disclosures, in the order in which they are
processed. -/
def digests : Tree → List String
  | arr items => digestsItems items
  | obj members sd => digestsMembers members ++ digestsMembers sd
  | hidden digest => [digest]
  | disclosed digest content => digest :: digests content
  | _ => []

def digestsItems : List Tree → List String
  | [] => []
  | t :: items => digests t ++ digestsItems items

def digestsMembers : List (String × Tree) → List String
  | [] => []
  | (_, t) :: members => digests t ++ digestsMembers members

end

mutual

/-- The paths of the disclosed claims with their digests. -/
def log (path : String) : Tree → List (String × String)
  | arr items => logItems path 0 items
  | obj members sd => logMembers path members ++ logMembers path sd
  | disclosed digest content => (path, digest) :: log path content
  | _ => []

def logItems (path : String) (idx : ℕ) : List Tree → List (String × String)
  | [] => []
  | t :: items => log (joinPath path (Nat.repr idx)) t ++ logItems path (idx + 1) items

def logMembers (path : String) : List (String × Tree) → List (String × String)
  | [] => []
  | (key, t) :: members => log (joinPath path (encodePathSegment key)) t ++ logMembers path members

end

mutual

/-- The disclosures: their digests and their values. -/
def contents : Tree → List (String × Value)
  | arr items => contentsItems items
  | obj members sd => contentsMembers members ++ contentsMembers sd
  | disclosed digest content => (digest, content.payload) :: contents content
  | _ => []

def contentsItems : List Tree → List (String × Value)
  | [] => []
  | t :: items => contents t ++ contentsItems items

def contentsMembers : List (String × Tree) → List (String × Value)
  | [] => []
  | (_, t) :: members => contents t ++ contentsMembers members

end

mutual

/-- How many disclosures are in one another. -/
def depth : Tree → ℕ
  | arr items => depthItems items
  | obj members sd => max (depthMembers members) (depthMembers sd)
  | disclosed _ content => depth content + 1
  | _ => 0

def depthItems : List Tree → ℕ
  | [] => 0
  | t :: items => max (depth t) (depthItems items)

def depthMembers : List (String × Tree) → ℕ
  | [] => 0
  | (_, t) :: members => max (depth t) (depthMembers members)

end

/-! ## Which disclosures a tree has -/

variable (map : DisclosureMap)

/-- How an array element is found: its digest has no disclosure, or one without a name. -/
def ItemFits : Tree → Prop
  | hidden digest => SdJwt.disclosed map digest = none
  | disclosed digest content => SdJwt.disclosed map digest = some (none, content.payload)
  | t => t.isValue ∧ placeholder t.payload = none

/-- How a digest of an object is found: it has no disclosure, or one with the name. -/
def DigestFits (key : String) : Tree → Prop
  | hidden digest => SdJwt.disclosed map digest = none ∧ key = ""
  | disclosed digest content => SdJwt.disclosed map digest = some (some key, content.payload)
  | _ => False

/-- A member of an object in the payload. -/
def MemberFits (path key : String) : Tree → Prop
  | digestList => key = SD_DIGEST
  | raw _ => key = SD_LIST_KEY
  | t => t.isValue ∧ key ≠ SD_DIGEST ∧ key ≠ SD_LIST_KEY ∧ (path ≠ "" → key ≠ "_sd_alg")

mutual

/-- The map gives the disclosed parts of the tree at a path, and no others. -/
def Fits (path : String) : Tree → Prop
  | arr items => FitItems path 0 items
  | obj members sd =>
    FitMembers path members ∧ FitDigests path sd ∧ (sd ≠ [] → SD_DIGEST ∈ keys members) ∧
      (∀ key ∈ keys (claimsMembers sd), key ∉ inheritedNames ∧ key ∉ keys members) ∧
      (keys (claimsMembers sd)).Nodup
  | disclosed _ content => content.isValue ∧ Fits path content
  | _ => True

def FitItems (path : String) (idx : ℕ) : List Tree → Prop
  | [] => True
  | t :: items => ItemFits map t ∧ Fits (joinPath path (Nat.repr idx)) t ∧
      FitItems path (idx + 1) items

def FitMembers (path : String) : List (String × Tree) → Prop
  | [] => True
  | (key, t) :: members =>
    MemberFits path key t ∧ Fits (joinPath path (encodePathSegment key)) t ∧ FitMembers path members

def FitDigests (path : String) : List (String × Tree) → Prop
  | [] => True
  | (key, t) :: sd =>
    DigestFits map key t ∧ Fits (joinPath path (encodePathSegment key)) t ∧ FitDigests path sd

end

/-! ## Trees of values -/

variable {map}

theorem itemFits_of_isValue {t : Tree} (h : t.isValue) (hp : placeholder t.payload = none) :
    ItemFits map t := by
  cases t with
  | leaf l => exact ⟨h, hp⟩
  | arr items => exact ⟨h, hp⟩
  | obj members sd => exact ⟨h, hp⟩
  | raw v => cases h
  | digestList => cases h
  | hidden digest => cases h
  | disclosed digest content => cases h

theorem placeholder_payload_of_itemFits {t : Tree} (h : t.isValue) (hm : ItemFits map t) :
    placeholder t.payload = none := by
  cases t with
  | leaf l => exact hm.2
  | arr items => exact hm.2
  | obj members sd => exact hm.2
  | raw v => cases h
  | digestList => cases h
  | hidden digest => cases h
  | disclosed digest content => cases h

theorem memberFits_of_isValue {path key : String} {t : Tree} (h : t.isValue) (hd : key ≠ SD_DIGEST)
    (hl : key ≠ SD_LIST_KEY) (ha : path ≠ "" → key ≠ "_sd_alg") : MemberFits path key t := by
  cases t with
  | leaf l => exact ⟨h, hd, hl, ha⟩
  | arr items => exact ⟨h, hd, hl, ha⟩
  | obj members sd => exact ⟨h, hd, hl, ha⟩
  | raw v => cases h
  | digestList => cases h
  | hidden digest => cases h
  | disclosed digest content => cases h

theorem payloadMembers_cons_of_isValue {t : Tree} (h : t.isValue) (_sd : Value) (key : String)
    (members : List (String × Tree)) :
    payloadMembers _sd ((key, t) :: members) = (key, t.payload) :: payloadMembers _sd members := by
  cases t with
  | digestList => cases h
  | _ => rfl

theorem exists_claims {t : Tree} (h : t.isValue) : ∃ v, t.claims = some v := by
  cases t with
  | leaf l => exact ⟨_, rfl⟩
  | arr items => exact ⟨_, rfl⟩
  | obj members sd => exact ⟨_, rfl⟩
  | raw v => cases h
  | digestList => cases h
  | hidden digest => cases h
  | disclosed digest content => cases h

theorem memberFits_cases {path key : String} {t : Tree} (h : MemberFits path key t) :
    (t = digestList ∧ key = SD_DIGEST) ∨ (∃ v, t = raw v ∧ key = SD_LIST_KEY) ∨
      (t.isValue ∧ key ≠ SD_DIGEST ∧ key ≠ SD_LIST_KEY ∧ (path ≠ "" → key ≠ "_sd_alg")) := by
  cases t with
  | digestList => exact .inl ⟨rfl, h⟩
  | raw v => exact .inr (.inl ⟨v, rfl, h⟩)
  | leaf l => exact .inr (.inr h)
  | arr items => exact .inr (.inr h)
  | obj members sd => exact .inr (.inr h)
  | hidden digest => cases h.1
  | disclosed digest content => cases h.1

theorem itemFits_cases {t : Tree} (h : ItemFits map t) :
    (∃ hash, t = hidden hash ∧ SdJwt.disclosed map hash = none) ∨
      (∃ hash content, t = disclosed hash content ∧
        SdJwt.disclosed map hash = some (none, content.payload)) ∨
      (t.isValue ∧ placeholder t.payload = none) := by
  cases t with
  | hidden hash => exact .inl ⟨hash, rfl, h⟩
  | disclosed hash content => exact .inr (.inl ⟨hash, content, rfl, h⟩)
  | leaf l => exact .inr (.inr h)
  | arr items => exact .inr (.inr h)
  | obj members sd => exact .inr (.inr h)
  | raw v => cases h.1
  | digestList => cases h.1

theorem digestFits_cases {key : String} {t : Tree} (h : DigestFits map key t) :
    (∃ hash, t = hidden hash ∧ SdJwt.disclosed map hash = none ∧ key = "") ∨
      (∃ hash content, t = disclosed hash content ∧
        SdJwt.disclosed map hash = some (some key, content.payload)) := by
  cases t with
  | hidden hash => exact .inl ⟨hash, rfl, h⟩
  | disclosed hash content => exact .inr ⟨hash, content, rfl, h⟩
  | leaf l => cases h
  | arr items => cases h
  | obj members sd => cases h
  | raw v => cases h
  | digestList => cases h

/-- A member besides `_sd` is revealed. -/
theorem mem_keys_claimsMembers {path key : String} {members : List (String × Tree)}
    (h : FitMembers map path members) (hk : key ∈ keys members) (hd : key ≠ SD_DIGEST) :
    key ∈ keys (claimsMembers members) := by
  induction members with
  | nil => cases hk
  | cons m members ih =>
    obtain ⟨name, t⟩ := m
    obtain ⟨hm, -, hmembers⟩ := h
    rw [claimsMembers, keys, List.map_append]
    rcases List.mem_cons.mp hk with rfl | hk
    · refine List.mem_append_left _ ?_
      rcases memberFits_cases hm with ⟨-, hk⟩ | ⟨v, rfl, -⟩ | ⟨hv, -⟩
      · exact absurd hk hd
      · simp [claims]
      · obtain ⟨v, hclaims⟩ := exists_claims hv
        simp [hclaims]
    · exact List.mem_append_right _ (ih hmembers hk)

theorem keys_claimsMembers_subset (members : List (String × Tree)) :
    keys (claimsMembers members) ⊆ keys members := by
  induction members with
  | nil => exact List.Subset.refl _
  | cons m members ih =>
    obtain ⟨key, t⟩ := m
    intro k hk
    rw [claimsMembers, keys, List.map_append] at hk
    rcases List.mem_append.mp hk with hk | hk
    · cases hc : t.claims with
      | none => simp [hc] at hk
      | some v =>
        obtain rfl : k = key := by simpa [hc] using hk
        exact List.mem_cons_self
    · exact List.mem_cons_of_mem _ (ih hk)

theorem lookup_payloadMembers {path : String} {members : List (String × Tree)} {_sd : Value}
    (h : FitMembers map path members) : (payloadMembers _sd members).lookup SD_DIGEST =
      if SD_DIGEST ∈ keys members then some _sd else none := by
  induction members with
  | nil => rfl
  | cons m members ih =>
    obtain ⟨key, t⟩ := m
    obtain ⟨hm, -, hmembers⟩ := h
    have hne : key ≠ SD_DIGEST → (if SD_DIGEST ∈ keys members then some _sd else none) =
        if SD_DIGEST ∈ keys ((key, t) :: members) then some _sd else none :=
      fun hk => if_congr (by simp [Ne.symm hk]) rfl rfl
    rcases memberFits_cases hm with ⟨rfl, rfl⟩ | ⟨v, rfl, rfl⟩ | ⟨hv, hk, -⟩
    · rw [payloadMembers, lookup_cons_of_eq]
      simp
    · have hk : SD_LIST_KEY ≠ SD_DIGEST := by simp [SD_LIST_KEY, SD_DIGEST]
      rw [payloadMembers, lookup_cons_of_ne hk, ih hmembers, hne hk]
      nofun
    · rw [payloadMembers_cons_of_isValue hv, lookup_cons_of_ne hk, ih hmembers, hne hk]

/-! ## Lists of trees -/

theorem payloadItems_eq (items : List Tree) : payloadItems items = items.map payload := by
  induction items with
  | nil => rfl
  | cons t items ih => exact congrArg _ ih

theorem digestsItems_eq (items : List Tree) : digestsItems items = items.flatMap digests := by
  induction items with
  | nil => rfl
  | cons t items ih => rw [digestsItems, ih, List.flatMap_cons]

theorem digestsMembers_eq (members : List (String × Tree)) :
    digestsMembers members = members.flatMap fun m => m.2.digests := by
  induction members with
  | nil => rfl
  | cons m members ih => rw [digestsMembers, ih, List.flatMap_cons]

theorem contentsItems_eq (items : List Tree) : contentsItems items = items.flatMap contents := by
  induction items with
  | nil => rfl
  | cons t items ih => rw [contentsItems, ih, List.flatMap_cons]

theorem contentsMembers_eq (members : List (String × Tree)) :
    contentsMembers members = members.flatMap fun m => m.2.contents := by
  induction members with
  | nil => rfl
  | cons m members ih => rw [contentsMembers, ih, List.flatMap_cons]

/-! ## Induction over a tree that the map fits -/

/-- A property of the values that an element or a member is made of. -/
def Part (motive : Tree → Prop) : Tree → Prop
  | disclosed _ content => content.isValue ∧ motive content
  | t => t.isValue → motive t

theorem part_of_isValue {motive : Tree → Prop} {t : Tree} (h : t.isValue)
    (hp : Part motive t) : motive t := by
  cases t with
  | disclosed digest content => cases h
  | _ => exact hp h

theorem part_of_core {motive : Tree → Prop} {t : Tree} {path : String} (hfit : Fits map path t)
    (h : ∀ path, t.core.isValue → Fits map path t.core → motive t.core) : Part motive t := by
  cases t with
  | disclosed digest content =>
    rw [core, core_of_isValue hfit.1] at h
    exact ⟨hfit.1, h path hfit.1 hfit.2⟩
  | leaf l => exact fun hv => h path hv hfit
  | arr items => exact fun hv => h path hv hfit
  | obj members sd => exact fun hv => h path hv hfit
  | raw v => exact fun hv => by cases hv
  | digestList => exact fun hv => by cases hv
  | hidden digest => exact fun hv => by cases hv

theorem forall_fitItems {path : String} {items : List Tree} {idx : ℕ}
    (h : FitItems map path idx items) :
    ∀ t ∈ items, ItemFits map t ∧ ∃ path, Fits map path t := by
  induction items generalizing idx with
  | nil => nofun
  | cons t items ih => exact List.forall_mem_cons.mpr ⟨⟨h.1, _, h.2.1⟩, ih h.2.2⟩

theorem forall_fitMembers {path : String} {members : List (String × Tree)}
    (h : FitMembers map path members) :
    ∀ m ∈ members, MemberFits path m.1 m.2 ∧ ∃ path, Fits map path m.2 := by
  induction members with
  | nil => nofun
  | cons m members ih => exact List.forall_mem_cons.mpr ⟨⟨h.1, _, h.2.1⟩, ih h.2.2⟩

theorem forall_fitDigests {path : String} {sd : List (String × Tree)} (h : FitDigests map path sd) :
    ∀ m ∈ sd, DigestFits map m.1 m.2 ∧ ∃ path, Fits map path m.2 := by
  induction sd with
  | nil => nofun
  | cons m sd ih => exact List.forall_mem_cons.mpr ⟨⟨h.1, _, h.2.1⟩, ih h.2.2⟩

/-- Induction over the values of a tree that the map fits, disclosed ones included. -/
theorem fits_induction {motive : Tree → Prop} (leaf : ∀ l, motive (leaf l))
    (arr : ∀ path items, Fits map path (arr items) → (∀ t ∈ items, ItemFits map t ∧ Part motive t) →
      motive (arr items))
    (obj : ∀ path members sd, Fits map path (obj members sd) →
      (∀ m ∈ members, MemberFits path m.1 m.2 ∧ Part motive m.2) →
      (∀ m ∈ sd, DigestFits map m.1 m.2 ∧ Part motive m.2) → motive (obj members sd))
    {t : Tree} {path : String} (hv : t.isValue) (hfit : Fits map path t) : motive t := by
  have hcore : ∀ t : Tree, ∀ path, t.core.isValue → Fits map path t.core → motive t.core := by
    intro t
    induction t with
    | leaf l => exact fun _ _ _ => leaf l
    | arr items ih =>
      intro path _ hfit
      refine arr path items hfit fun t ht => ?_
      obtain ⟨hitem, path', hfit'⟩ := forall_fitItems hfit t ht
      exact ⟨hitem, part_of_core hfit' (ih t ht)⟩
    | obj members sd ih ihsd =>
      intro path _ hfit
      refine obj path members sd hfit (fun m hm => ?_) fun m hm => ?_
      · obtain ⟨hmember, path', hfit'⟩ := forall_fitMembers hfit.1 m hm
        exact ⟨hmember, part_of_core hfit' (ih m hm)⟩
      · obtain ⟨hdigest, path', hfit'⟩ := forall_fitDigests hfit.2.1 m hm
        exact ⟨hdigest, part_of_core hfit' (ihsd m hm)⟩
    | raw v => exact fun _ hv => by cases hv
    | digestList => exact fun _ hv => by cases hv
    | hidden digest => exact fun _ hv => by cases hv
    | disclosed digest content ih => exact ih
  have h := hcore t path
  rw [core_of_isValue hv] at h
  exact h hv hfit

/-! ## Parts -/

/-- The elements of an array, and the members and the digests of an object. -/
def parts : Tree → List Tree
  | arr items => items
  | obj members sd => members.map (·.2) ++ sd.map (·.2)
  | _ => []

theorem digests_eq_parts {t : Tree} (h : t.isValue) : t.digests = t.parts.flatMap digests := by
  cases t with
  | leaf l => rfl
  | arr items => exact digestsItems_eq items
  | obj members sd =>
    rw [digests, digestsMembers_eq, digestsMembers_eq, parts, List.flatMap_append, List.flatMap_map,
      List.flatMap_map]
  | raw v => cases h
  | digestList => cases h
  | hidden digest => cases h
  | disclosed digest content => cases h

theorem contents_eq_parts {t : Tree} (h : t.isValue) : t.contents = t.parts.flatMap contents := by
  cases t with
  | leaf l => rfl
  | arr items => exact contentsItems_eq items
  | obj members sd =>
    rw [contents, contentsMembers_eq, contentsMembers_eq, parts, List.flatMap_append,
      List.flatMap_map, List.flatMap_map]
  | raw v => cases h
  | digestList => cases h
  | hidden digest => cases h
  | disclosed digest content => cases h

/-- How a part is found: it has no disclosures, is a value, or is a digest with what the map
gives. -/
def PartFits (map : DisclosureMap) (motive : Tree → Prop) (t : Tree) : Prop :=
  (t = digestList ∨ ∃ v, t = raw v) ∨ (t.isValue ∧ motive t) ∨
    (∃ hash, t = hidden hash ∧ SdJwt.disclosed map hash = none) ∨
    ∃ hash content key, t = disclosed hash content ∧
    SdJwt.disclosed map hash = some (key, content.payload) ∧
      content.isValue ∧ motive content

/-- Induction over the values of a tree that the map fits, with one case for all of them. -/
theorem parts_induction {motive : Tree → Prop}
    (h : ∀ t path, t.isValue → Fits map path t → (∀ p ∈ t.parts, PartFits map motive p) → motive t)
    {t : Tree} {path : String} (hv : t.isValue) (hfit : Fits map path t) : motive t := by
  refine fits_induction (fun l => h _ path rfl trivial nofun)
    (fun path items hfit ih => h _ path rfl hfit fun p hp => ?_)
    (fun path members sd hfit ih ihsd => h _ path rfl hfit fun p hp => ?_) hv hfit
  · obtain ⟨hitem, hpart⟩ := ih p hp
    rcases itemFits_cases hitem with ⟨hash, rfl, hdis⟩ | ⟨hash, content, rfl, hdis⟩ | ⟨hv, -⟩
    · exact .inr (.inr (.inl ⟨hash, rfl, hdis⟩))
    · exact .inr (.inr (.inr ⟨hash, content, _, rfl, hdis, hpart⟩))
    · exact .inr (.inl ⟨hv, part_of_isValue hv hpart⟩)
  · rcases List.mem_append.mp hp with hp | hp
    · obtain ⟨m, hm, rfl⟩ := List.mem_map.mp hp
      obtain ⟨hmember, hpart⟩ := ih m hm
      rcases memberFits_cases hmember with ⟨ht, -⟩ | ⟨v, ht, -⟩ | ⟨hv, -⟩
      · exact .inl (.inl ht)
      · exact .inl (.inr ⟨v, ht⟩)
      · exact .inr (.inl ⟨hv, part_of_isValue hv hpart⟩)
    · obtain ⟨m, hm, rfl⟩ := List.mem_map.mp hp
      obtain ⟨hdigest, hpart⟩ := ihsd m hm
      rcases digestFits_cases hdigest with ⟨hash, ht, hdis, -⟩ | ⟨hash, content, ht, hdis⟩
      · exact .inr (.inr (.inl ⟨hash, ht, hdis⟩))
      · rw [ht] at hpart
        exact .inr (.inr (.inr ⟨hash, content, _, ht, hdis, hpart⟩))

end Tree

end IdentityCommon.SdJwt
