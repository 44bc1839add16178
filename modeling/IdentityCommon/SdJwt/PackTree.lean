import IdentityCommon.SdJwt.Pack
import IdentityCommon.SdJwt.Presentation
import IdentityCommon.SdJwt.KeyBinding

/-!
# What packing makes

Packing claims with a frame that is shaped after them makes the payload and the disclosures of a
tree that reveals the claims.

## Main definitions

- `Suits` — a frame is shaped after the claims
- `Saw` — the digests that packing has seen
- `Packed` — the tree of what packing has made

## Main results

- `pack_suits` — what packing makes of claims with a frame that suits them is packed
-/

namespace IdentityCommon.SdJwt

open Ecma Value AssocList IdentityCommon.Except

/-! ## Equal values -/

theorem same_arr {items items' : List Value} (h : List.Forall₂ Same items items') :
    (arr items).Same (arr items') := by
  intro p
  cases p with
  | nil => rfl
  | cons k p =>
    cases k with
    | name key => rfl
    | index n =>
      simp only [follow_cons, child_index_arr]
      have hn := h.length_eq
      by_cases hlt : n < items.length
      · have hlt' : n < items'.length := hn ▸ hlt
        rw [List.getElem?_eq_getElem hlt, List.getElem?_eq_getElem hlt', Option.bind_some,
          Option.bind_some]
        exact List.Forall₂.get h hlt hlt' p
      · rw [List.getElem?_eq_none (by omega), List.getElem?_eq_none (by omega)]

theorem same_obj {members members' : List (String × Value)}
    (h : ∀ key, Option.Rel Same (members.lookup key) (members'.lookup key)) :
    (obj members).Same (obj members') := by
  intro p
  cases p with
  | nil => rfl
  | cons k p =>
    cases k with
    | index n => rfl
    | name key =>
      simp only [follow_cons, child_name_obj]
      have hrel := h key
      generalize members.lookup key = x at hrel ⊢
      generalize members'.lookup key = y at hrel ⊢
      cases hrel with
      | none => rfl
      | some hsame => exact hsame p

/-- Objects with the same names and the same values under them. -/
theorem same_obj_of_mem {members members' : List (String × Value)}
    (hkeys : (keys members).Perm (keys members'))
    (h : ∀ m ∈ members, ∀ x, members'.lookup m.1 = some x → m.2.Same x) :
    (obj members).Same (obj members') := by
  refine same_obj fun key => ?_
  cases hl : members.lookup key with
  | none =>
    have hkey : key ∉ keys members' := fun hmem => lookup_eq_none_iff.mp hl (hkeys.mem_iff.mpr hmem)
    rw [lookup_eq_none_iff.mpr hkey]
    exact .none
  | some v =>
    have hmem := mem_of_lookup hl
    have hkey : key ∈ keys members' := hkeys.mem_iff.mp (mem_keys_of_mem hmem)
    obtain ⟨x, hx⟩ := Option.isSome_iff_exists.mp (lookup_isSome_iff.mpr hkey)
    rw [hx]
    exact .some (h _ hmem x hx)

/-! ## Reserved names -/

/-- No member of the value, at any depth, has a reserved name. -/
def Unreserved (v : Value) : Prop := reservedName v = none

theorem digest_reserved : SD_DIGEST ∈ reservedFields := by decide

theorem listKey_reserved : SD_LIST_KEY ∈ reservedFields := by decide

theorem decoy_reserved : SD_DECOY ∈ reservedFields := by decide

theorem unreserved_items {items : List Value} :
    reservedInItems items = none ↔ ∀ x ∈ items, Unreserved x := by
  induction items with
  | nil => simp [reservedInItems]
  | cons x items ih =>
    rw [reservedInItems, List.forall_mem_cons, ← ih, Unreserved]
    cases reservedName x <;> simp

theorem unreserved_members {members : List (String × Value)} :
    reservedInMembers members = none ↔ ∀ m ∈ members, m.1 ∉ reservedFields ∧ Unreserved m.2 := by
  induction members with
  | nil => simp [reservedInMembers]
  | cons m members ih =>
    obtain ⟨key, x⟩ := m
    rw [reservedInMembers, List.forall_mem_cons, ← ih, Unreserved]
    by_cases hkey : key ∈ reservedFields
    · simp [hkey]
    · cases reservedName x <;> simp [hkey]

theorem Unreserved.item {items : List Value} (h : Unreserved (arr items)) :
    ∀ x ∈ items, Unreserved x :=
  unreserved_items.mp h

theorem Unreserved.member {members : List (String × Value)} (h : Unreserved (obj members)) :
    ∀ m ∈ members, m.1 ∉ reservedFields ∧ Unreserved m.2 :=
  unreserved_members.mp h

theorem Unreserved.not_mem_keys {members : List (String × Value)}
    (h : Unreserved (obj members)) {key : String} (hkey : key ∈ reservedFields) :
    key ∉ keys members := by
  intro hmem
  obtain ⟨m, hm, rfl⟩ := List.mem_map.mp hmem
  exact (h.member m hm).1 hkey

/-! ## Values without anything disclosable -/

namespace Tree

mutual

/-- A value in which nothing is disclosable. -/
def ofValue : Value → Tree
  | .leaf l => leaf l
  | .arr items => arr (ofItems items)
  | .obj members => obj (ofMembers members) []

def ofItems : List Value → List Tree
  | [] => []
  | x :: items => ofValue x :: ofItems items

def ofMembers : List (String × Value) → List (String × Tree)
  | [] => []
  | (key, x) :: members => (key, ofValue x) :: ofMembers members

end

theorem isValue_ofValue (v : Value) : (ofValue v).isValue := by
  cases v <;> rfl

theorem payload_ofValue (v : Value) : (ofValue v).payload = v := by
  induction v with
  | leaf l => rfl
  | arr items ih =>
    refine congrArg Value.arr ?_
    induction items with
    | nil => rfl
    | cons x items ihs =>
      obtain ⟨hx, hitems⟩ := List.forall_mem_cons.mp ih
      rw [ofItems, payloadItems, hx, ihs hitems]
  | obj members ih =>
    refine congrArg Value.obj ?_
    generalize digestValues [] = _sd
    induction members with
    | nil => rfl
    | cons m members ihs =>
      obtain ⟨key, x⟩ := m
      obtain ⟨hx, hmembers⟩ := List.forall_mem_cons.mp ih
      rw [ofMembers, payloadMembers_cons_of_isValue (isValue_ofValue x), ihs hmembers]
      exact congrArg (fun v => (key, v) :: members) hx

theorem claims_ofValue (v : Value) : (ofValue v).claims = some v := by
  induction v with
  | leaf l => rfl
  | arr items ih =>
    refine congrArg (some ∘ Value.arr) ?_
    induction items with
    | nil => rfl
    | cons x items ihs =>
      obtain ⟨hx, hitems⟩ := List.forall_mem_cons.mp ih
      rw [ofItems, claimsItems, hx, ihs hitems]
      rfl
  | obj members ih =>
    have hmembers : claimsMembers (ofMembers members) = members := by
      induction members with
      | nil => rfl
      | cons m members ihs =>
        obtain ⟨key, x⟩ := m
        obtain ⟨hx, hmembers⟩ := List.forall_mem_cons.mp ih
        rw [ofMembers, claimsMembers, hx, ihs hmembers]
        rfl
    rw [ofValue, claims, hmembers, claimsMembers, List.append_nil]

theorem digests_ofValue (v : Value) : (ofValue v).digests = [] := by
  induction v with
  | leaf l => rfl
  | arr items ih =>
    rw [ofValue, digests]
    induction items with
    | nil => rfl
    | cons x items ihs =>
      obtain ⟨hx, hitems⟩ := List.forall_mem_cons.mp ih
      rw [ofItems, digestsItems, hx, ihs hitems]
      rfl
  | obj members ih =>
    rw [ofValue, digests, digestsMembers, List.append_nil]
    induction members with
    | nil => rfl
    | cons m members ihs =>
      obtain ⟨key, x⟩ := m
      obtain ⟨hx, hmembers⟩ := List.forall_mem_cons.mp ih
      rw [ofMembers, digestsMembers, hx, ihs hmembers]
      rfl

/-- An object without a member `...` is no digest. -/
theorem placeholder_of_not_mem {members : List (String × Value)} (h : SD_LIST_KEY ∉ keys members) :
    placeholder (.obj members) = none := by
  rw [placeholder, lookup_eq_none_iff.mpr h]
  rfl

theorem placeholder_of_unreserved {v : Value} (h : Unreserved v) : placeholder v = none := by
  cases v with
  | leaf l => rfl
  | arr items => rfl
  | obj members => exact placeholder_of_not_mem (h.not_mem_keys listKey_reserved)

/-- The name of a claim is no name that processing looks for. -/
theorem memberFits_of_unreserved {path key : String} {t : Tree} (hv : t.isValue)
    (h : key ∉ reservedFields) :
    MemberFits path key t := by
  simp only [reservedFields, List.mem_cons, not_or] at h
  exact memberFits_of_isValue hv h.1 h.2.2.2.1 fun _ => h.2.1

theorem fits_ofValue (map : DisclosureMap) {v : Value} (h : Unreserved v) (path : String) :
    (ofValue v).Fits map path := by
  induction v generalizing path with
  | leaf l => trivial
  | arr items ih =>
    have hitems := h.item
    rw [ofValue, Fits]
    clear h
    generalize 0 = idx
    induction items generalizing idx with
    | nil => trivial
    | cons x items ihs =>
      obtain ⟨hx, hxs⟩ := List.forall_mem_cons.mp hitems
      obtain ⟨ihx, ihxs⟩ := List.forall_mem_cons.mp ih
      refine ⟨itemFits_of_isValue (isValue_ofValue x) ?_, ihx hx _, ihs ihxs hxs (idx + 1)⟩
      rw [payload_ofValue]
      exact placeholder_of_unreserved hx
  | obj members ih =>
    have hmembers := h.member
    refine ⟨?_, trivial, fun hne => absurd rfl hne, (fun _ h => by cases h), List.nodup_nil⟩
    clear h
    induction members with
    | nil => trivial
    | cons m members ihs =>
      obtain ⟨key, x⟩ := m
      obtain ⟨⟨hkey, hx⟩, hms⟩ := List.forall_mem_cons.mp hmembers
      obtain ⟨ihx, ihms⟩ := List.forall_mem_cons.mp ih
      exact ⟨memberFits_of_unreserved (isValue_ofValue x) hkey, ihx hx _, ihs ihms hms⟩

end Tree

/-! ## Frames -/

/-- The member or the element that a name of a frame is for. -/
def partOf : Value → String → Option Value
  | .leaf _, _ => none
  | .arr items, key => (arrayIndex key).bind fun idx => items[idx]?
  | .obj members, key => members.lookup key

/-- A member of an object with a frame. A name that every object inherits needs a frame of its own,
so that packing does not read what is inherited, and cannot be disclosable; a disclosable member has
a name. -/
structure MemberSuits (sd : List Key) (frames : List (String × DisclosureFrame))
    (key : String) : Prop where
  inherited : key ∈ inheritedNames → key ≠ "__proto__" ∧ .name key ∉ sd ∧ key ∈ keys frames
  nonempty : .name key ∈ sd → key ≠ ""

mutual

/-- The frame is shaped after the claims. -/
def Suits (claims : Value) : DisclosureFrame → Prop
  | .undefined => True
  | .frame _sd _ frames => (keys frames).Nodup ∧ SuitFrames claims frames ∧ match claims with
    | .leaf _ => False
    | .arr _ => True
    | .obj members => ∀ key ∈ keys members, MemberSuits (_sd.getD []) frames key

def SuitFrames (claims : Value) : List (String × DisclosureFrame) → Prop
  | [] => True
  | (key, frame) :: frames => (∃ claim, partOf claims key = some claim ∧ Suits claim frame) ∧
      SuitFrames claims frames

end

theorem readClaim_of_partOf {claims claim : Value} {key : String}
    (h : partOf claims key = some claim) :
    readClaim claims key = .ok claim := by
  cases claims with
  | leaf l => cases h
  | arr items =>
    rw [partOf] at h
    rw [readClaim, h]
    rfl
  | obj members =>
    rw [partOf] at h
    exact congrArg _ (get_obj_of_some h)

/-! ## What packing has made -/

variable (c : PackConfig)

/-- A disclosure as an issuer makes it: of a JSON value, with no empty name, and not encoded. -/
structure Fresh (d : Disclosure) : Prop where
  isJson : d.value.IsJson
  key_ne : d.key ≠ some ""
  _digest : d._digest = none
  _encoded : d._encoded = none

/-- Packing has seen the digests of disclosures and of decoys, and none twice. -/
structure Saw (st : PackState) (ds : List Disclosure) (decoys : List String)
    (st' : PackState) : Prop where
  perm : st'.seenDigests.Perm (st.seenDigests ++ (ds.map (·.digest c.hash) ++ decoys))
  nodup : st.seenDigests.Nodup → st'.seenDigests.Nodup
  decoys : ∀ decoy ∈ decoys, ∃ salt, decoy = c.hash.digest salt

/-- The map has the disclosures, and none for the decoys. -/
structure Gives (map : DisclosureMap) (ds : List Disclosure) (decoys : List String) : Prop where
  disclosed : ∀ d ∈ ds, disclosed map (d.digest c.hash) = some (d.key, d.value)
  decoy : ∀ hash ∈ decoys, SdJwt.disclosed map hash = none

/-- The tree of what packing claims has made. -/
structure Packed (claims packed : Value) (ds : List Disclosure) (decoys : List String)
    (t : Tree) : Prop where
  isValue : t.isValue
  payload_eq : t.payload = packed
  same : ∃ v, t.claims = some v ∧ v.Same claims
  digests : t.digests.Perm (ds.map (·.digest c.hash) ++ decoys)
  fits : ∀ map path, Gives c map ds decoys → t.Fits map path
  isJson : packed.IsJson
  noDigest : placeholder packed = none
  fresh : ∀ d ∈ ds, Fresh d

variable {c}

theorem Saw.refl (st : PackState) : Saw c st [] [] st := ⟨by simp, id, nofun⟩

theorem Saw.trans {st st' st'' : PackState} {ds ds' : List Disclosure}
    {decoys decoys' : List String} (h : Saw c st ds decoys st') (h' : Saw c st' ds' decoys' st'') :
    Saw c st (ds ++ ds') (decoys ++ decoys') st'' where
  perm := by
    have hp := List.perm_iff_count.mp h.perm
    have hp' := List.perm_iff_count.mp h'.perm
    refine List.perm_iff_count.mpr fun x => ?_
    have hx := hp x
    have hx' := hp' x
    simp only [List.count_append, List.map_append] at hx hx' ⊢
    omega
  nodup hn := h'.nodup (h.nodup hn)
  decoys := List.forall_mem_append.mpr ⟨h.decoys, h'.decoys⟩

theorem Gives.mono {map : DisclosureMap} {ds ds' : List Disclosure} {decoys decoys' : List String}
    (h : Gives c map ds decoys) (hds : ds' ⊆ ds) (hdecoys : decoys' ⊆ decoys) :
    Gives c map ds' decoys' :=
  ⟨fun d hd => h.disclosed d (hds hd), fun hash hhash => h.decoy hash (hdecoys hhash)⟩

/-- Nothing is made of claims without a frame. -/
theorem packed_ofValue {v : Value} (hj : v.IsJson) (hu : Unreserved v) :
    Packed c v v [] [] (.ofValue v) where
  isValue := Tree.isValue_ofValue v
  payload_eq := Tree.payload_ofValue v
  same := ⟨v, Tree.claims_ofValue v, .refl v⟩
  digests := by rw [Tree.digests_ofValue]; exact List.Perm.refl _
  fits map path _ := Tree.fits_ofValue map hu path
  isJson := hj
  noDigest := Tree.placeholder_of_unreserved hu
  fresh := nofun

/-! ## Salts and digests -/

theorem addDisclosureDigest_eq_ok {digest : String} {st : PackState} {r : Unit × PackState}
    (h : addDisclosureDigest digest st = .ok r) :
    digest ∉ st.seenDigests ∧ r.2.seenDigests = st.seenDigests ++ [digest] := by
  rw [addDisclosureDigest] at h
  split at h
  case isTrue => cases h
  case isFalse hnew =>
    cases h
    exact ⟨hnew, rfl⟩

theorem createDisclosureSalt_eq_ok {st : PackState} {r : String × PackState}
    (h : createDisclosureSalt c st = .ok r) : r.2.seenDigests = st.seenDigests := by
  rw [createDisclosureSalt, drawSalt] at h
  dsimp only at h
  split at h
  case isTrue => cases h
  case isFalse =>
    cases h
    rfl

theorem fromArray_eq_ok {salt : String} {key : Option String} {claim : Value} {d : Disclosure}
    (h : Disclosure.fromArray (.arr (match key with
      | some key => [.str salt, .str key, claim]
      | none => [.str salt, claim])) none none = .ok d) :
    d.key = key ∧ d.value = claim ∧ d._digest = none ∧ d._encoded = none := by
  cases key with
  | none =>
    cases h
    exact ⟨rfl, rfl, rfl, rfl⟩
  | some key =>
    simp only [Disclosure.fromArray] at h
    split at h
    case isTrue => cases h
    case isFalse =>
      cases h
      exact ⟨rfl, rfl, rfl, rfl⟩

theorem createDisclosure_eq_ok {key : Option String} {claim : Value} {st : PackState}
    {r : (Disclosure × String) × PackState} (h : createDisclosure c key claim st = .ok r) :
    r.1.1.key = key ∧ r.1.1.value = claim ∧ r.1.1._digest = none ∧ r.1.1._encoded = none ∧
      r.1.2 = r.1.1.digest c.hash ∧ Saw c st [r.1.1] [] r.2 := by
  rw [createDisclosure] at h
  obtain ⟨⟨salt, st₁⟩, hsalt, h⟩ := bind_eq_ok.mp h
  obtain ⟨d, hd, h⟩ := bind_eq_ok.mp h
  obtain ⟨⟨⟨⟩, st₂⟩, hadd, h⟩ := bind_eq_ok.mp h
  cases h
  obtain ⟨hkey, hvalue, hdigest, hencoded⟩ := fromArray_eq_ok (liftError_eq_ok.mp hd)
  have hsalt := createDisclosureSalt_eq_ok hsalt
  obtain ⟨hnew, hseen⟩ := addDisclosureDigest_eq_ok hadd
  dsimp only at hsalt hseen hnew ⊢
  rw [hsalt] at hnew hseen
  refine ⟨hkey, hvalue, hdigest, hencoded, rfl, ?_, fun hn => ?_, nofun⟩
  · rw [hseen]
    simp
  · rw [hseen]
    exact nodup_concat hnew hn

theorem createDecoys_eq_ok {decoyCount : ℕ} {st : PackState} {r : List String × PackState}
    (h : createDecoys c decoyCount st = .ok r) : Saw c st [] r.1 r.2 := by
  induction decoyCount generalizing st r with
  | zero =>
    cases h
    exact .refl st
  | succ n ih =>
    rw [createDecoys, createDecoy, drawSalt, ok_bind] at h
    obtain ⟨⟨⟨⟩, st₁⟩, hadd, h⟩ := bind_eq_ok.mp h
    obtain ⟨⟨decoys, st₂⟩, hrest, h⟩ := bind_eq_ok.mp h
    cases h
    obtain ⟨hnew, hseen⟩ := addDisclosureDigest_eq_ok hadd
    dsimp only at hnew hseen
    have hone : Saw c st [] [c.hash.digest (c.saltGenerator st.drawn)] st₁ := by
      refine ⟨?_, fun hn => ?_, List.forall_mem_singleton.mpr ⟨_, rfl⟩⟩
      · rw [hseen]
        simp
      · rw [hseen]
        exact nodup_concat hnew hn
    exact hone.trans (ih hrest)

/-! ## Arrays -/

/-- The trees of the elements from index `i` on, where `T` has the trees of what they are packed
to. -/
structure ItemsPacked (c : PackConfig) (T : String → Tree) (i : ℕ) (items packed : List Value)
    (ds : List Disclosure) (ts : List Tree) : Prop where
  payload_eq : Tree.payloadItems ts = packed
  same : List.Forall₂ Same (Tree.claimsItems ts) items
  digests : (Tree.digestsItems ts).Perm
    (ds.map (·.digest c.hash) ++ (List.range' i items.length).flatMap fun j =>
      (T (Nat.repr j)).digests)
  fits : ∀ map path, Gives c map ds [] →
    (∀ j ∈ List.range' i items.length, ∀ path, (T (Nat.repr j)).Fits map path) →
    Tree.FitItems map path i ts
  isJson : ∀ x ∈ packed, x.IsJson
  fresh : ∀ d ∈ ds, Fresh d

theorem isJson_digestPlaceholder (digest : String) : (digestPlaceholder digest).IsJson :=
  .obj (List.nodup_singleton _) (List.forall_mem_singleton.mpr (.leaf rfl))

variable {sd : List Key} {R : List (String × Value)} {D : String → List Disclosure}
    {E : String → List String}
  {T : String → Tree}

theorem packItems_eq_ok {items : List Value} {i : ℕ} {st : PackState}
    {r : (List Value × List Disclosure) × PackState} (h : packItems c sd R i items st = .ok r)
    (hT : ∀ j x, items[j]? = some x →
      Packed c x (packedOr ((R.lookup (Nat.repr (i + j))).getD undefined) x) (D (Nat.repr (i + j)))
        (E (Nat.repr (i + j))) (T (Nat.repr (i + j)))) :
    (∃ ts, ItemsPacked c T i items r.1.1 r.1.2 ts) ∧ Saw c st r.1.2 [] r.2 := by
  induction items generalizing i st r with
  | nil =>
    cases h
    exact ⟨⟨[], rfl, .nil, by simp [Tree.digestsItems], fun _ _ _ _ => trivial,
      (fun _ h => by cases h), (fun _ h => by cases h)⟩, .refl st⟩
  | cons item items ih =>
    have hitem := hT 0 item rfl
    have hitems : ∀ j x, items[j]? = some x →
        Packed c x (packedOr ((R.lookup (Nat.repr (i + 1 + j))).getD undefined) x)
        (D (Nat.repr (i + 1 + j))) (E (Nat.repr (i + 1 + j))) (T (Nat.repr (i + 1 + j))) :=
          fun j x hx => by
      rw [Nat.add_assoc, Nat.add_comm 1 j]
      exact hT (j + 1) x hx
    rw [Nat.add_zero] at hitem
    obtain ⟨v, hclaims, hsame⟩ := hitem.same
    rw [packItems] at h
    dsimp only at h
    split at h
    case isTrue hsel =>
      obtain ⟨⟨⟨d, digest⟩, st₁⟩, hd, h⟩ := bind_eq_ok.mp h
      obtain ⟨⟨⟨packed, ds⟩, st₂⟩, hrest, h⟩ := bind_eq_ok.mp h
      cases h
      obtain ⟨hkey, hvalue, hdig, henc, hdigest, hsaw⟩ := createDisclosure_eq_ok hd
      obtain ⟨⟨ts, hts⟩, hsaw'⟩ := ih hrest hitems
      dsimp only at hkey hvalue hdig henc hdigest hsaw hsaw' ⊢
      refine ⟨⟨.disclosed digest (T (Nat.repr i)) :: ts, ?_, ?_, ?_,
        fun map path hg hfit => ?_, ?_, ?_⟩, hsaw.trans hsaw'⟩
      · rw [Tree.payloadItems, hts.payload_eq]
        rfl
      · rw [Tree.claimsItems, Tree.claims, hclaims]
        exact .cons hsame hts.same
      · rw [Tree.digestsItems, Tree.digests, List.map_cons, ← hdigest, List.length_cons,
          List.range'_succ, List.flatMap_cons]
        exact .cons digest ((hts.digests.append_left _).trans (List.perm_append_comm_assoc _ _ _))
      · obtain ⟨hg, hgs⟩ := List.forall_mem_cons.mp hg.disclosed
        rw [List.length_cons, List.range'_succ, List.forall_mem_cons] at hfit
        refine ⟨?_, ⟨hitem.isValue, hfit.1 _⟩,
          hts.fits map path ⟨hgs, (fun _ h => by cases h)⟩ hfit.2⟩
        rw [Tree.ItemFits, hdigest, hg, hkey, hvalue, hitem.payload_eq]
      · exact List.forall_mem_cons.mpr ⟨isJson_digestPlaceholder digest, hts.isJson⟩
      · exact List.forall_mem_cons.mpr
          ⟨⟨hvalue ▸ hitem.isJson, (by rw [hkey]; exact fun h => by cases h), hdig, henc⟩,
            hts.fresh⟩
    case isFalse =>
      obtain ⟨⟨⟨packed, ds⟩, st₁⟩, hrest, h⟩ := bind_eq_ok.mp h
      cases h
      obtain ⟨⟨ts, hts⟩, hsaw'⟩ := ih hrest hitems
      dsimp only at hsaw' ⊢
      refine ⟨⟨T (Nat.repr i) :: ts, ?_, ?_, ?_, fun map path hg hfit => ?_, ?_, hts.fresh⟩, hsaw'⟩
      · rw [Tree.payloadItems, hts.payload_eq, hitem.payload_eq]
      · rw [Tree.claimsItems, hclaims]
        exact .cons hsame hts.same
      · rw [Tree.digestsItems, List.length_cons, List.range'_succ, List.flatMap_cons]
        exact (hts.digests.append_left _).trans (List.perm_append_comm_assoc _ _ _)
      · rw [List.length_cons, List.range'_succ, List.forall_mem_cons] at hfit
        refine ⟨Tree.itemFits_of_isValue hitem.isValue ?_, hfit.1 _, hts.fits map path hg hfit.2⟩
        rw [hitem.payload_eq]
        exact hitem.noDigest
      · exact List.forall_mem_cons.mpr ⟨hitem.isJson, hts.isJson⟩

namespace Tree

theorem payloadItems_append (items items' : List Tree) :
    payloadItems (items ++ items') = payloadItems items ++ payloadItems items' := by
  rw [payloadItems_eq, payloadItems_eq, payloadItems_eq, List.map_append]

theorem digestsItems_append (items items' : List Tree) :
    digestsItems (items ++ items') = digestsItems items ++ digestsItems items' := by
  rw [digestsItems_eq, digestsItems_eq, digestsItems_eq, List.flatMap_append]

theorem claimsItems_append (items items' : List Tree) :
    claimsItems (items ++ items') = claimsItems items ++ claimsItems items' := by
  induction items with
  | nil => rfl
  | cons t items ih => rw [List.cons_append, claimsItems, claimsItems, ih, List.append_assoc]

theorem fitItems_append {map : DisclosureMap} {path : String} {items items' : List Tree} {idx : ℕ}
    (h : FitItems map path idx items) (h' : ∀ idx, FitItems map path idx items') :
    FitItems map path idx (items ++ items') := by
  induction items generalizing idx with
  | nil => exact h' idx
  | cons t items ih => exact ⟨h.1, h.2.1, ih h.2.2⟩

/-! ### Decoys -/

theorem payloadItems_decoys (decoys : List String) :
    payloadItems (decoys.map hidden) = decoys.map digestPlaceholder := by
  rw [payloadItems_eq, List.map_map]
  rfl

theorem digestsItems_decoys (decoys : List String) : digestsItems (decoys.map hidden) = decoys := by
  induction decoys with
  | nil => rfl
  | cons decoy decoys ih => exact congrArg (decoy :: ·) ih

theorem claimsItems_decoys (decoys : List String) : claimsItems (decoys.map hidden) = [] := by
  induction decoys with
  | nil => rfl
  | cons decoy decoys ih => exact ih

theorem fitItems_decoys {map : DisclosureMap} {decoys : List String}
    (h : ∀ hash ∈ decoys, SdJwt.disclosed map hash = none) (path : String) (idx : ℕ) :
    FitItems map path idx (decoys.map hidden) := by
  induction decoys generalizing idx with
  | nil => trivial
  | cons decoy decoys ih =>
    obtain ⟨hdecoy, hdecoys⟩ := List.forall_mem_cons.mp h
    exact ⟨hdecoy, trivial, ih hdecoys (idx + 1)⟩

end Tree

/-! ## Objects -/

/-- The trees of the members of an object: of those that are kept, and of those that are
disclosable, where `T` has the trees of what they are packed to. -/
structure MembersPacked (c : PackConfig) (T : String → Tree) (names : List String)
    (p : PackedMembers) (kept sel : List (String × Tree)) : Prop where
  payload_eq : ∀ _sd, Tree.payloadMembers _sd kept = p.packedClaims
  _sd_eq : sel.map (·.2.digest) = p._sd
  keys_perm : (keys (kept ++ sel)).Perm names
  of_kept : ∀ m ∈ kept, m.2 = T m.1
  of_sel : ∀ m ∈ sel, m.1 ∉ inheritedNames ∧ ∃ d ∈ p.disclosures, d.key = some m.1 ∧
    d.value = (T m.1).payload ∧
    m.2 = .disclosed (d.digest c.hash) (T m.1)
  digests : (Tree.digestsMembers kept ++ Tree.digestsMembers sel).Perm
    (p.disclosures.map (·.digest c.hash) ++ names.flatMap fun key => (T key).digests)
  isJson : ∀ m ∈ p.packedClaims, m.2.IsJson
  fresh : ∀ d ∈ p.disclosures, Fresh d

theorem packMembers_eq_ok {members : List (String × Value)} {st : PackState}
    {r : PackedMembers × PackState} (h : packMembers c sd R members st = .ok r)
    (hT : ∀ m ∈ members, Packed c m.2 (packedOr ((obj R).get m.1) m.2) (D m.1) (E m.1) (T m.1))
    (hproto : ∀ m ∈ members, m.1 ≠ "__proto__")
    (hsd : ∀ m ∈ members, .name m.1 ∈ sd → m.1 ∉ inheritedNames ∧ m.1 ≠ "") :
    (∃ kept sel, MembersPacked c T (keys members) r.1 kept sel) ∧
    Saw c st r.1.disclosures [] r.2 := by
  induction members generalizing st r with
  | nil =>
    cases h
    exact ⟨⟨[], [], fun _ => rfl, rfl, .refl _, nofun, nofun, .refl _, nofun, nofun⟩, .refl st⟩
  | cons m members ih =>
    obtain ⟨key, value⟩ := m
    obtain ⟨hm, hmembers⟩ := List.forall_mem_cons.mp hT
    obtain ⟨hpm, hproto⟩ := List.forall_mem_cons.mp hproto
    obtain ⟨hsm, hsd⟩ := List.forall_mem_cons.mp hsd
    dsimp only at hm hpm hsm
    rw [packMembers] at h
    dsimp only at h
    split at h
    case isTrue hsel =>
      obtain ⟨⟨⟨d, digest⟩, st₁⟩, hd, h⟩ := bind_eq_ok.mp h
      obtain ⟨⟨p, st₂⟩, hrest, h⟩ := bind_eq_ok.mp h
      cases h
      obtain ⟨hkey, hvalue, hdig, henc, hdigest, hsaw⟩ := createDisclosure_eq_ok hd
      obtain ⟨⟨kept, sel, hp⟩, hsaw'⟩ := ih hrest hmembers hproto hsd
      dsimp only at hkey hvalue hdig henc hdigest hsaw hsaw' ⊢
      refine ⟨⟨kept, (key, .disclosed digest (T key)) :: sel, hp.payload_eq, ?_, ?_,
        hp.of_kept, ?_, ?_, hp.isJson, ?_⟩, hsaw.trans hsaw'⟩
      · rw [List.map_cons, hp._sd_eq]
        rfl
      · rw [keys, List.map_append, List.map_cons]
        refine List.perm_middle.trans (.cons key ?_)
        rw [← List.map_append]
        exact hp.keys_perm
      · refine List.forall_mem_cons.mpr
          ⟨⟨(hsm hsel).1, d, List.mem_cons_self, hkey, ?_, by rw [hdigest]⟩, fun m hm => ?_⟩
        · rw [hvalue, hm.payload_eq]
        · obtain ⟨hni, d', hd', hrest'⟩ := hp.of_sel m hm
          exact ⟨hni, d', List.mem_cons_of_mem _ hd', hrest'⟩
      · rw [Tree.digestsMembers, Tree.digests, List.map_cons, ← hdigest, keys_cons,
          List.flatMap_cons]
        refine List.perm_middle.trans (.cons digest ?_)
        refine (List.perm_append_comm_assoc _ _ _).trans ?_
        exact (hp.digests.append_left _).trans (List.perm_append_comm_assoc _ _ _)
      · refine List.forall_mem_cons.mpr ⟨⟨hvalue ▸ hm.isJson, ?_, hdig, henc⟩, hp.fresh⟩
        rw [hkey]
        exact fun heq => (hsm hsel).2 (Option.some.inj heq)
    case isFalse =>
      obtain ⟨⟨p, st₁⟩, hrest, h⟩ := bind_eq_ok.mp h
      cases h
      obtain ⟨⟨kept, sel, hp⟩, hsaw'⟩ := ih hrest hmembers hproto hsd
      dsimp only at hsaw' ⊢
      refine ⟨⟨(key, T key) :: kept, sel, fun _sd => ?_, hp._sd_eq, .cons key hp.keys_perm,
        List.forall_mem_cons.mpr ⟨rfl, hp.of_kept⟩, hp.of_sel, ?_,
          List.forall_mem_cons.mpr ⟨hm.isJson, hp.isJson⟩, hp.fresh⟩, hsaw'⟩
      · rw [Tree.payloadMembers_cons_of_isValue hm.isValue, hp.payload_eq, hm.payload_eq]
      · rw [Tree.digestsMembers, keys_cons, List.flatMap_cons, List.append_assoc]
        exact (hp.digests.append_left _).trans (List.perm_append_comm_assoc _ _ _)

/-! ## All parts -/

/-- An element at an index, or a member. -/
def IsPart : Value → String → Value → Prop
  | .leaf _, _, _ => False
  | .arr items, key, x => ∃ j, key = Nat.repr j ∧ items[j]? = some x
  | .obj members, key, x => members.lookup key = some x

theorem isPart_of_partOf {claims x : Value} {key : String} (h : partOf claims key = some x) :
    IsPart claims key x := by
  cases claims with
  | leaf l => cases h
  | obj members => exact h
  | arr items =>
    obtain ⟨j, hj, hx⟩ := Option.bind_eq_some_iff.mp h
    have hrepr := (Option.filter_eq_some_iff.mp hj).2
    exact ⟨j, (of_decide_eq_true hrepr).symm, hx⟩

theorem IsPart.unique {claims x y : Value} {key : String} (h : IsPart claims key x)
    (h' : IsPart claims key y) :
    x = y := by
  cases claims with
  | leaf l => cases h
  | obj members => exact Option.some.inj (h.symm.trans h')
  | arr items =>
    obtain ⟨j, rfl, hx⟩ := h
    obtain ⟨k, hk, hy⟩ := h'
    obtain rfl := repr_injective hk
    exact Option.some.inj (hx.symm.trans hy)

theorem IsPart.isJson {claims x : Value} {key : String} (h : IsPart claims key x)
    (hj : claims.IsJson) : x.IsJson := by
  cases claims with
  | leaf l => cases h
  | obj members => exact hj.child (k := .name key) h
  | arr items =>
    obtain ⟨j, -, hx⟩ := h
    exact hj.child (k := .index j) hx

theorem IsPart.unreserved {claims x : Value} {key : String} (h : IsPart claims key x)
    (hu : Unreserved claims) :
    Unreserved x := by
  cases claims with
  | leaf l => cases h
  | obj members => exact (hu.member _ (mem_of_lookup h)).2
  | arr items =>
    obtain ⟨j, -, hx⟩ := h
    exact hu.item x (List.mem_of_getElem? hx)

/-- What the parts of claims are packed to, of which some have a frame. -/
structure PartsPacked (c : PackConfig) (claims : Value) (R : List (String × Value))
    (framed : List String) (D : String → List Disclosure) (E : String → List String)
    (T : String → Tree) : Prop where
  keys_eq : keys R = framed
  unframed : ∀ key ∉ framed, D key = [] ∧ E key = []
  packed : ∀ key x, IsPart claims key x →
    Packed c x (packedOr ((R.lookup key).getD undefined) x) (D key) (E key) (T key)

/-- Without frames, no part is packed. -/
theorem exists_partsPacked {claims : Value} (hj : claims.IsJson) (hu : Unreserved claims) :
    ∃ T, PartsPacked c claims [] [] (fun _ => []) (fun _ => []) T := by
  classical
  refine ⟨fun key => if h : ∃ x, IsPart claims key x then .ofValue h.choose
    else .leaf .undefined, rfl, fun _ _ => ⟨rfl, rfl⟩, fun key x hx => ?_⟩
  have h : ∃ x, IsPart claims key x := ⟨x, hx⟩
  rw [dif_pos h, h.choose_spec.unique hx]
  exact packed_ofValue (hx.isJson hj) (hx.unreserved hu)

/-- Packing claims with this frame makes a tree. -/
def PacksAt (c : PackConfig) (frame : DisclosureFrame) : Prop :=
  ∀ claims st r, claims.IsJson → Unreserved claims → Suits claims frame →
  pack c claims frame st = .ok r →
    (∃ decoys t, Packed c claims r.1.1 r.1.2 decoys t ∧ Saw c st r.1.2 decoys r.2) ∧
    packedOr r.1.1 claims = r.1.1

theorem packFrames_eq_ok {claims : Value} (hj : claims.IsJson) (hu : Unreserved claims)
    {frames : List (String × DisclosureFrame)} (ih : ∀ m ∈ frames, PacksAt c m.2)
    (hn : (keys frames).Nodup) (hs : SuitFrames claims frames) {st : PackState}
    {r : (List (String × Value) × List Disclosure) × PackState}
    (h : packFrames c claims frames st = .ok r) :
    ∃ D E T, PartsPacked c claims r.1.1 (keys frames) D E T ∧ r.1.2 = (keys frames).flatMap D ∧
      Saw c st r.1.2 ((keys frames).flatMap E) r.2 := by
  induction frames generalizing st r with
  | nil =>
    cases h
    obtain ⟨T, hT⟩ := exists_partsPacked (c := c) hj hu
    exact ⟨_, _, T, hT, rfl, .refl st⟩
  | cons m frames ihs =>
    obtain ⟨key, frame⟩ := m
    obtain ⟨hframe, hframes⟩ := List.forall_mem_cons.mp ih
    obtain ⟨hkey, hn⟩ := List.nodup_cons.mp hn
    obtain ⟨⟨claim, hpart, hsuits⟩, hs⟩ := hs
    have hpart' := isPart_of_partOf hpart
    rw [packFrames, readClaim_of_partOf hpart, ok_bind] at h
    obtain ⟨⟨⟨packed, ds⟩, st₁⟩, hpacked, h⟩ := bind_eq_ok.mp h
    obtain ⟨⟨⟨R, ds'⟩, st₂⟩, hrest, h⟩ := bind_eq_ok.mp h
    cases h
    obtain ⟨⟨decoys, t, ht, hsaw⟩, hor⟩ :=
      hframe claim st _ (hpart'.isJson hj) (hpart'.unreserved hu) hsuits hpacked
    obtain ⟨D, E, T, hparts, hds, hsaw'⟩ := ihs hframes hn hs hrest
    dsimp only at ht hsaw hor hparts hds hsaw' ⊢
    have hD : (keys frames).flatMap (Function.update D key ds) = (keys frames).flatMap D :=
      List.flatMap_congr fun k hk => Function.update_of_ne (ne_of_mem_of_not_mem hk hkey) ..
    have hE : (keys frames).flatMap (Function.update E key decoys) = (keys frames).flatMap E :=
      List.flatMap_congr fun k hk => Function.update_of_ne (ne_of_mem_of_not_mem hk hkey) ..
    refine ⟨Function.update D key ds, Function.update E key decoys, Function.update T key t,
      ⟨congrArg _ hparts.keys_eq, fun k hk => ?_, fun k x hx => ?_⟩, ?_, ?_⟩
    · obtain ⟨hne, hk⟩ := not_or.mp (List.mem_cons.not.mp hk)
      rw [Function.update_of_ne hne, Function.update_of_ne hne]
      exact hparts.unframed k hk
    · by_cases hk : k = key
      · subst hk
        obtain rfl := hx.unique hpart'
        rw [lookup_cons_of_eq, Option.getD_some, hor, Function.update_self, Function.update_self,
          Function.update_self]
        exact ht
      · rw [lookup_cons_of_ne (m := (key, packed)) (Ne.symm hk), Function.update_of_ne hk,
          Function.update_of_ne hk, Function.update_of_ne hk]
        exact hparts.packed k x hx
    · rw [keys_cons, List.flatMap_cons, Function.update_self, hD, hds]
    · rw [keys_cons, List.flatMap_cons, Function.update_self, hE]
      exact hsaw.trans hsaw'

/-- A list with more elements, of which the others have nothing under them. -/
theorem flatMap_perm_of_subset {α β : Type*} [DecidableEq α] {l l' : List α} (hn : l.Nodup)
    (hn' : l'.Nodup) (hsub : l' ⊆ l) {f : α → List β} (h : ∀ x ∉ l', f x = []) :
    (l.flatMap f).Perm (l'.flatMap f) := by
  have hperm : l.Perm (l' ++ l.filter (· ∉ l')) := by
    refine (List.perm_ext_iff_of_nodup hn ?_).mpr fun x => ?_
    · refine hn'.append (hn.filter _) fun x hx hx' => ?_
      exact of_decide_eq_true (List.mem_filter.mp hx').2 hx
    · by_cases hx : x ∈ l'
      · simp [hx, hsub hx]
      · simp [hx]
  have hnil : (l.filter (· ∉ l')).flatMap f = [] :=
    List.flatMap_eq_nil_iff.mpr fun x hx => h x (of_decide_eq_true (List.mem_filter.mp hx).2)
  refine (hperm.flatMap_right f).trans ?_
  rw [List.flatMap_append, hnil, List.append_nil]

variable {claims : Value} {framed names : List String}

theorem PartsPacked.digests (h : PartsPacked c claims R framed D E T) (hn : names.Nodup)
    (hn' : framed.Nodup) (hsub : framed ⊆ names) (hpart : ∀ key ∈ names, ∃ x, IsPart claims key x) :
    (names.flatMap fun key => (T key).digests).Perm
      ((framed.flatMap D).map (·.digest c.hash) ++ framed.flatMap E) := by
  have hD := (flatMap_perm_of_subset hn hn' hsub fun key hkey => (h.unframed key hkey).1).map
    (·.digest c.hash)
  have hE := flatMap_perm_of_subset hn hn' hsub fun key hkey => (h.unframed key hkey).2
  refine (List.Perm.flatMap_left names fun key hkey => ?_).trans
    ((List.flatMap_append_perm names (fun key => (D key).map (·.digest c.hash)) E).symm.trans ?_)
  · obtain ⟨x, hx⟩ := hpart key hkey
    exact (h.packed key x hx).digests
  · rw [← List.map_flatMap]
    exact hD.append hE

theorem PartsPacked.fits (h : PartsPacked c claims R framed D E T) {map : DisclosureMap}
    (hg : Gives c map (framed.flatMap D) (framed.flatMap E)) {key : String} {x : Value}
    (hx : IsPart claims key x) (path : String) : (T key).Fits map path := by
  refine (h.packed key x hx).fits map path ?_
  by_cases hkey : key ∈ framed
  · exact hg.mono (fun d hd => List.mem_flatMap.mpr ⟨key, hkey, hd⟩) fun e he =>
      List.mem_flatMap.mpr ⟨key, hkey, he⟩
  · obtain ⟨hD, hE⟩ := h.unframed key hkey
    rw [hD, hE]
    exact ⟨nofun, nofun⟩

theorem PartsPacked.fresh (h : PartsPacked c claims R framed D E T)
    (hpart : ∀ key ∈ framed, ∃ x, IsPart claims key x) :
    ∀ d ∈ framed.flatMap D, Fresh d := by
  intro d hd
  obtain ⟨key, hkey, hd⟩ := List.mem_flatMap.mp hd
  obtain ⟨x, hx⟩ := hpart key hkey
  exact (h.packed key x hx).fresh d hd

/-- The claims with a frame are parts. -/
theorem isPart_of_suitFrames {frames : List (String × DisclosureFrame)}
    (h : SuitFrames claims frames) :
    ∀ key ∈ keys frames, ∃ x, IsPart claims key x := by
  induction frames with
  | nil => exact nofun
  | cons m frames ih =>
    obtain ⟨⟨x, hx, -⟩, h⟩ := h
    exact List.forall_mem_cons.mpr ⟨⟨x, isPart_of_partOf hx⟩, ih h⟩

/-! ## One level -/

/-- The member `_sd_decoy` of a frame makes nothing of claims without reserved names. -/
theorem packDecoyEntry_eq_ok {_sd_decoy : Option ℕ} {st : PackState}
    {r : List (String × Value) × PackState} (hu : Unreserved claims) (hleaf : ∀ l, claims ≠ .leaf l)
    (h : packDecoyEntry c claims _sd_decoy st = .ok r) :
    r.2 = st ∧ ∀ key ≠ SD_DECOY, r.1.lookup key = none := by
  cases _sd_decoy with
  | none =>
    cases h
    exact ⟨rfl, fun _ _ => rfl⟩
  | some decoyCount =>
    rw [packDecoyEntry] at h
    dsimp only at h
    obtain ⟨claim, hclaim, h⟩ := bind_eq_ok.mp h
    have hlookup : ∀ v : Value, ∀ key ≠ SD_DECOY, [(SD_DECOY, v)].lookup key = none :=
        fun v key hkey => by
      rw [lookup_cons_of_ne (Ne.symm hkey)]
      rfl
    split at h
    case isTrue =>
      cases h
      exact ⟨rfl, hlookup claim⟩
    case isFalse hnot =>
      -- the claims have no member of this name, so that there is nothing to pack
      obtain rfl : claim = undefined := by
        cases claims with
        | arr items => exact absurd (.inr rfl) hnot
        | obj members =>
          have hnone := lookup_eq_none_iff.mpr (hu.not_mem_keys decoy_reserved)
          have hget := get_obj_of_none hnone
          rw [readClaim, property, hget] at hclaim
          · cases hclaim
            rfl
          all_goals nofun
        | leaf l => exact absurd rfl (hleaf l)
      obtain ⟨⟨⟨packed, ds⟩, st'⟩, hpacked, h⟩ := bind_eq_ok.mp h
      cases h
      cases hpacked
      exact ⟨rfl, hlookup _⟩

theorem packed_arr {items : List Value} (hparts : PartsPacked c (.arr items) R framed D E T)
    (hn : framed.Nodup) (hframed : ∀ key ∈ framed, ∃ x, IsPart (.arr items) key x)
    {packed : List Value} {ds : List Disclosure} {ts : List Tree}
    (hts : ItemsPacked c T 0 items packed ds ts) (decoys : List String) :
    Packed c (.arr items) (.arr (packed ++ decoys.map digestPlaceholder)) (framed.flatMap D ++ ds)
      (framed.flatMap E ++ decoys) (.arr (ts ++ decoys.map .hidden)) where
  isValue := rfl
  payload_eq := by
    rw [Tree.payload, Tree.payloadItems_append, hts.payload_eq, Tree.payloadItems_decoys]
  same := by
    refine ⟨_, rfl, same_arr ?_⟩
    rw [Tree.claimsItems_append, Tree.claimsItems_decoys, List.append_nil]
    exact hts.same
  digests := by
    have hpart : ∀ j ∈ List.range' 0 items.length, ∃ x, IsPart (.arr items) (Nat.repr j) x :=
        fun j hmem => by
      have hlt := (List.mem_range'_1.mp hmem).2
      exact ⟨items[j], j, rfl, List.getElem?_eq_getElem (by omega)⟩
    have hnodup : ((List.range' 0 items.length).map Nat.repr).Nodup :=
      List.Nodup.map repr_injective List.nodup_range'
    have hnames := hparts.digests hnodup hn (fun key hkey => ?_)
      (fun key hkey => by obtain ⟨j, hmem, rfl⟩ := List.mem_map.mp hkey; exact hpart j hmem)
    · rw [List.flatMap_map] at hnames
      rw [Tree.digests, Tree.digestsItems_append, Tree.digestsItems_decoys, List.map_append]
      have hp := List.perm_iff_count.mp hts.digests
      have hp' := List.perm_iff_count.mp hnames
      refine List.perm_iff_count.mpr fun x => ?_
      have hx := hp x
      have hx' := hp' x
      simp only [List.count_append] at hx hx' ⊢
      omega
    · obtain ⟨x, j, rfl, hx⟩ := hframed key hkey
      refine List.mem_map_of_mem (List.mem_range'_1.mpr ⟨Nat.zero_le _, ?_⟩)
      have hlt := (List.getElem?_eq_some_iff.mp hx).1
      omega
  fits map path hg := by
    refine Tree.fitItems_append (hts.fits map path
      (hg.mono (List.subset_append_right _ _) fun _ h => by cases h) fun j hmem path => ?_)
      (Tree.fitItems_decoys (fun e he => hg.decoy e (List.mem_append_right _ he)) path)
    have hlt := (List.mem_range'_1.mp hmem).2
    refine hparts.fits (hg.mono (List.subset_append_left _ _) (List.subset_append_left _ _))
      (x := items[j]) ?_ path
    exact ⟨j, rfl, List.getElem?_eq_getElem (by omega)⟩
  isJson := by
    refine .arr fun x hx => ?_
    rcases List.mem_append.mp hx with hx | hx
    · exact hts.isJson x hx
    · obtain ⟨digest, -, rfl⟩ := List.mem_map.mp hx
      exact isJson_digestPlaceholder digest
  noDigest := rfl
  fresh := List.forall_mem_append.mpr ⟨hparts.fresh hframed, hts.fresh⟩

namespace Tree

theorem payloadMembers_append (_sd : Value) (members members' : List (String × Tree)) :
    payloadMembers _sd (members ++ members') = payloadMembers _sd members ++
    payloadMembers _sd members' := by
  induction members with
  | nil => rfl
  | cons m members ih =>
    obtain ⟨key, t⟩ := m
    cases t <;> exact congrArg _ ih

theorem claimsMembers_eq (members : List (String × Tree)) :
    claimsMembers members = members.flatMap fun m => (m.2.claims.map (m.1, ·)).toList := by
  induction members with
  | nil => rfl
  | cons m members ih => rw [claimsMembers, ih, List.flatMap_cons]

theorem claimsMembers_append (members members' : List (String × Tree)) :
    claimsMembers (members ++ members') = claimsMembers members ++ claimsMembers members' := by
  rw [claimsMembers_eq, claimsMembers_eq, claimsMembers_eq, List.flatMap_append]

theorem digestsMembers_append (members members' : List (String × Tree)) :
    digestsMembers (members ++ members') = digestsMembers members ++ digestsMembers members' := by
  rw [digestsMembers_eq, digestsMembers_eq, digestsMembers_eq, List.flatMap_append]

theorem fitMembers_append {map : DisclosureMap} {path : String}
    {members members' : List (String × Tree)} (h : FitMembers map path members)
    (h' : FitMembers map path members') : FitMembers map path (members ++ members') := by
  induction members with
  | nil => exact h'
  | cons m members ih => exact ⟨h.1, h.2.1, ih h.2.2⟩

theorem fitMembers_of_forall {map : DisclosureMap} {path : String} {members : List (String × Tree)}
    (h : ∀ m ∈ members, MemberFits path m.1 m.2 ∧ ∀ path, Fits map path m.2) :
    FitMembers map path members := by
  induction members with
  | nil => trivial
  | cons m members ih =>
    obtain ⟨hm, hmembers⟩ := List.forall_mem_cons.mp h
    exact ⟨hm.1, hm.2 _, ih hmembers⟩

theorem fitDigests_of_forall {map : DisclosureMap} {path : String} {sd : List (String × Tree)}
    (h : ∀ m ∈ sd, DigestFits map m.1 m.2 ∧ ∀ path, Fits map path m.2) :
    FitDigests map path sd := by
  induction sd with
  | nil => trivial
  | cons m sd ih =>
    obtain ⟨hm, hsd⟩ := List.forall_mem_cons.mp h
    exact ⟨hm.1, hm.2 _, ih hsd⟩

/-- Where every member reveals a claim, the names are those of the claims. -/
theorem keys_claimsMembers_of_forall {members : List (String × Tree)}
    (h : ∀ m ∈ members, ∃ v, m.2.claims = some v) :
    keys (claimsMembers members) = keys members := by
  induction members with
  | nil => rfl
  | cons m members ih =>
    obtain ⟨⟨v, hv⟩, hmembers⟩ := List.forall_mem_cons.mp h
    rw [claimsMembers, hv, keys_cons, ← ih hmembers]
    rfl

/-- The decoys of an object. -/
def decoyMembers (decoys : List String) : List (String × Tree) :=
  decoys.map fun decoy => ("", hidden decoy)

theorem claimsMembers_decoys (decoys : List String) : claimsMembers (decoyMembers decoys) = [] := by
  induction decoys with
  | nil => rfl
  | cons decoy decoys ih => exact ih

theorem digestsMembers_decoys (decoys : List String) :
    digestsMembers (decoyMembers decoys) = decoys := by
  induction decoys with
  | nil => rfl
  | cons decoy decoys ih => exact congrArg (decoy :: ·) ih

/-- The member `_sd`, if there are digests for it. -/
def digestMember (_sd : List String) : List (String × Tree) :=
  if _sd = [] then [] else [(SD_DIGEST, digestList)]

theorem claimsMembers_digestMember (_sd : List String) : claimsMembers (digestMember _sd) = [] := by
  rw [digestMember]
  split <;> rfl

theorem digestsMembers_digestMember (_sd : List String) :
    digestsMembers (digestMember _sd) = [] := by
  rw [digestMember]
  split <;> rfl

theorem fitMembers_digestMember (map : DisclosureMap) (path : String) (_sd : List String) :
    FitMembers map path (digestMember _sd) := by
  rw [digestMember]
  split
  · trivial
  · exact ⟨rfl, trivial, trivial⟩

theorem mem_keys_digestMember {_sd : List String} {key : String}
    (h : key ∈ keys (digestMember _sd)) : key = SD_DIGEST := by
  rw [digestMember] at h
  split at h
  · cases h
  · exact List.mem_singleton.mp h

end Tree

/-- A list in another order is the image of the elements in another order. -/
theorem exists_perm_map {α β : Type*} {f : α → β} {l : List α} {l' : List β}
    (h : l'.Perm (l.map f)) :
    ∃ m : List α, m.Perm l ∧ m.map f = l' := by
  obtain ⟨m, hm, hperm⟩ := List.perm_comp_forall₂ (r := fun b a => b = f a) h
    (List.forall₂_map_left_iff.mpr (List.forall₂_same.mpr fun _ _ => rfl))
  refine ⟨m, hperm, ?_⟩
  clear hperm h
  induction hm with
  | nil => rfl
  | cons hb _ ih => rw [List.map_cons, hb, ih]

variable {members : List (String × Value)} {p : PackedMembers} {kept sel : List (String × Tree)}

theorem MembersPacked.exists_part (hp : MembersPacked c T (keys members) p kept sel) :
    ∀ m ∈ kept ++ sel, ∃ x, members.lookup m.1 = some x := by
  intro m hm
  have hkey := hp.keys_perm.mem_iff.mp (mem_keys_of_mem hm)
  exact Option.isSome_iff_exists.mp (lookup_isSome_iff.mpr hkey)

/-- What is kept and what is disclosable reveal the claims. -/
theorem MembersPacked.same (hp : MembersPacked c T (keys members) p kept sel)
    (hparts : PartsPacked c (.obj members) R framed D E T) :
    ∀ m ∈ kept ++ sel, ∃ v x, members.lookup m.1 = some x ∧ m.2.claims = some v ∧ v.Same x := by
  intro m hm
  obtain ⟨x, hx⟩ := hp.exists_part m hm
  obtain ⟨v, hclaims, hsame⟩ := (hparts.packed m.1 x hx).same
  refine ⟨v, x, hx, ?_, hsame⟩
  rcases List.mem_append.mp hm with hm | hm
  · rw [hp.of_kept m hm, hclaims]
  · obtain ⟨-, d, -, -, -, heq⟩ := hp.of_sel m hm
    rw [heq, Tree.claims, hclaims]

theorem MembersPacked.isValue (hp : MembersPacked c T (keys members) p kept sel)
    (hparts : PartsPacked c (.obj members) R framed D E T) :
    ∀ m ∈ kept ++ sel, (T m.1).isValue := by
  intro m hm
  obtain ⟨x, hx⟩ := hp.exists_part m hm
  exact (hparts.packed m.1 x hx).isValue

theorem MembersPacked.keys_packedClaims (hp : MembersPacked c T (keys members) p kept sel) :
    keys p.packedClaims = keys kept := by
  rw [← hp.payload_eq undefined, Tree.keys_payloadMembers]

theorem MembersPacked.not_mem (hp : MembersPacked c T (keys members) p kept sel)
    (hu : Unreserved (.obj members)) {key : String} (hkey : key ∈ reservedFields) :
    key ∉ keys (kept ++ sel) := fun h =>
  hu.not_mem_keys hkey (hp.keys_perm.mem_iff.mp h)

/-- Adding the digests adds the member `_sd`. -/
theorem MembersPacked.withDigests (hp : MembersPacked c T (keys members) p kept sel)
    (hu : Unreserved (.obj members)) {_sd : List String} {sd : List (String × Tree)}
    (h : sd.map (·.2.digest) = sortStrings _sd) :
    Tree.payloadMembers (Tree.digestValues sd) (kept ++ Tree.digestMember _sd) =
      withDigests p.packedClaims _sd := by
  rw [Tree.payloadMembers_append, hp.payload_eq, SdJwt.withDigests, Tree.digestMember]
  split
  case isTrue => exact List.append_nil _
  case isFalse =>
    have hnot : SD_DIGEST ∉ keys p.packedClaims := fun hmem => by
      rw [hp.keys_packedClaims] at hmem
      refine hp.not_mem hu digest_reserved ?_
      rw [keys, List.map_append]
      exact List.mem_append_left _ hmem
    rw [insert_of_not_mem hnot, ← h, List.map_map]
    rfl

theorem MembersPacked.isJson_withDigests (hp : MembersPacked c T (keys members) p kept sel)
    (hj : (obj members).IsJson) (_sd : List String) :
    (obj (SdJwt.withDigests p.packedClaims _sd)).IsJson := by
  have hn : (keys p.packedClaims).Nodup := by
    have hnodup := hp.keys_perm.nodup_iff.mpr (obj_distinct_iff.mp hj.distinct).1
    rw [keys, List.map_append] at hnodup
    rw [hp.keys_packedClaims]
    exact hnodup.of_append_left
  rw [SdJwt.withDigests]
  split
  case isTrue => exact .obj hn hp.isJson
  case isFalse =>
    refine .obj (nodup_insert _ hn) fun m hm => ?_
    rcases mem_of_mem_insert hm with rfl | hm
    · refine .arr fun x hx => ?_
      obtain ⟨hash, -, rfl⟩ := List.mem_map.mp hx
      exact .leaf rfl
    · exact hp.isJson m hm

theorem MembersPacked.noDigest (hp : MembersPacked c T (keys members) p kept sel)
    (hu : Unreserved (.obj members)) (_sd : List String) :
    placeholder (.obj (SdJwt.withDigests p.packedClaims _sd)) = none := by
  refine Tree.placeholder_of_not_mem fun hmem => ?_
  have hkept : SD_LIST_KEY ∉ keys p.packedClaims := fun hmem => by
    rw [hp.keys_packedClaims] at hmem
    refine hp.not_mem hu listKey_reserved ?_
    rw [keys, List.map_append]
    exact List.mem_append_left _ hmem
  rw [SdJwt.withDigests] at hmem
  split at hmem
  case isTrue => exact hkept hmem
  case isFalse =>
    obtain ⟨m, hm, hkey⟩ := List.mem_map.mp hmem
    rcases mem_of_mem_insert hm with rfl | hm
    · exact listKey_ne_digest hkey.symm
    · exact hkept (hkey ▸ mem_keys_of_mem hm)

/-- The digests of an object fit what the disclosures give. -/
theorem MembersPacked.fitDigests (hp : MembersPacked c T (keys members) p kept sel)
    (hparts : PartsPacked c (.obj members) R framed D E T) {map : DisclosureMap}
    {decoys : List String}
    (hg : Gives c map (framed.flatMap D ++ p.disclosures) (framed.flatMap E ++ decoys))
    {sd : List (String × Tree)} (hsd : sd.Perm (sel ++ Tree.decoyMembers decoys)) (path : String) :
    Tree.FitDigests map path sd := by
  refine Tree.fitDigests_of_forall fun m hm => ?_
  rcases List.mem_append.mp (hsd.mem_iff.mp hm) with hm | hm
  · obtain ⟨-, d, hd, hkey, hvalue, heq⟩ := hp.of_sel m hm
    have hmem := List.mem_append_right kept hm
    obtain ⟨x, hx⟩ := hp.exists_part m hmem
    rw [heq]
    refine ⟨?_, fun path => ⟨hp.isValue hparts m hmem, hparts.fits ?_ hx path⟩⟩
    · rw [Tree.DigestFits, hg.disclosed d (List.mem_append_right _ hd), hkey, hvalue]
    · exact hg.mono (List.subset_append_left _ _) (List.subset_append_left _ _)
  · obtain ⟨decoy, hdecoy, rfl⟩ := List.mem_map.mp hm
    exact ⟨⟨hg.decoy decoy (List.mem_append_right _ hdecoy), rfl⟩, fun _ => trivial⟩

theorem packed_obj (hj : (obj members).IsJson) (hu : Unreserved (.obj members))
    (hparts : PartsPacked c (.obj members) R framed D E T) (hn : framed.Nodup)
    (hframed : ∀ key ∈ framed, ∃ x, IsPart (.obj members) key x)
    (hp : MembersPacked c T (keys members) p kept sel) (decoys : List String) :
    ∃ t, Packed c (.obj members) (.obj (withDigests p.packedClaims (p._sd ++ decoys)))
      (framed.flatMap D ++ p.disclosures) (framed.flatMap E ++ decoys) t := by
  have hnames : (keys members).Nodup := (obj_distinct_iff.mp hj.distinct).1
  have hmap : (sel ++ Tree.decoyMembers decoys).map (·.2.digest) = p._sd ++ decoys := by
    rw [List.map_append, hp._sd_eq, Tree.decoyMembers, List.map_map]
    exact congrArg _ (List.map_id decoys)
  have hsort : (sortStrings (p._sd ++ decoys)).Perm
      ((sel ++ Tree.decoyMembers decoys).map (·.2.digest)) := by
    rw [hmap]
    exact List.perm_insertionSort _ _
  obtain ⟨sd, hsd, hsorted⟩ := exists_perm_map hsort
  -- the claims are those of what is kept and of what is disclosable
  have hclaims : (Tree.claimsMembers (kept ++ Tree.digestMember (p._sd ++ decoys)) ++
      Tree.claimsMembers sd).Perm
      (Tree.claimsMembers (kept ++ sel)) := by
    rw [Tree.claimsMembers_append, Tree.claimsMembers_digestMember, List.append_nil,
      Tree.claimsMembers_append]
    refine List.Perm.append_left _ ?_
    rw [Tree.claimsMembers_eq sd]
    refine (hsd.flatMap_right _).trans ?_
    rw [← Tree.claimsMembers_eq, Tree.claimsMembers_append, Tree.claimsMembers_decoys,
      List.append_nil]
  have hkeys : keys (Tree.claimsMembers (kept ++ sel)) = keys (kept ++ sel) :=
    Tree.keys_claimsMembers_of_forall fun m hm => by
      obtain ⟨v, -, -, hv, -⟩ := hp.same hparts m hm
      exact ⟨v, hv⟩
  have hnodup : (keys (kept ++ sel)).Nodup := hp.keys_perm.nodup_iff.mpr hnames
  have hsub : keys (Tree.claimsMembers sd) ⊆ keys sel := by
    intro key hkey
    obtain ⟨m, hm, rfl⟩ := List.mem_map.mp hkey
    obtain ⟨t, ht, hv⟩ := Tree.mem_claimsMembers hm
    rcases List.mem_append.mp (hsd.mem_iff.mp ht) with ht | ht
    · exact mem_keys_of_mem ht
    · obtain ⟨decoy, -, heq⟩ := List.mem_map.mp ht
      rw [← (Prod.mk.inj heq).2] at hv
      cases hv
  refine ⟨.obj (kept ++ Tree.digestMember (p._sd ++ decoys)) sd, rfl, ?_, ⟨_, rfl, ?_⟩, ?_,
    fun map path hg => ?_, hp.isJson_withDigests hj _, hp.noDigest hu _,
      List.forall_mem_append.mpr ⟨hparts.fresh hframed, hp.fresh⟩⟩
  · exact congrArg _ (hp.withDigests hu hsorted)
  · have hperm := (hclaims.map Prod.fst).trans ((List.Perm.of_eq hkeys).trans hp.keys_perm)
    refine same_obj_of_mem hperm fun m hm x hx => ?_
    obtain ⟨t, ht, hv⟩ := Tree.mem_claimsMembers (hclaims.mem_iff.mp hm)
    obtain ⟨v, x', hx', hv', hsame⟩ := hp.same hparts _ ht
    cases hx.symm.trans hx'
    cases hv.symm.trans hv'
    exact hsame
  · rw [Tree.digests, Tree.digestsMembers_append, Tree.digestsMembers_digestMember, List.append_nil,
      Tree.digestsMembers_eq sd]
    have hsdp := hsd.flatMap_right fun m : String × Tree => m.2.digests
    rw [← Tree.digestsMembers_eq, ← Tree.digestsMembers_eq, Tree.digestsMembers_append,
      Tree.digestsMembers_decoys] at hsdp
    rw [← Tree.digestsMembers_eq, List.map_append]
    have hparts' := hparts.digests hnames hn
      (fun key hkey => by
        obtain ⟨x, hx⟩ := hframed key hkey
        exact lookup_isSome_iff.mp (Option.isSome_iff_exists.mpr ⟨x, hx⟩))
      fun key hkey => Option.isSome_iff_exists.mp (lookup_isSome_iff.mpr hkey)
    have hp₁ := List.perm_iff_count.mp hp.digests
    have hp₂ := List.perm_iff_count.mp hparts'
    have hp₃ := List.perm_iff_count.mp hsdp
    refine List.perm_iff_count.mpr fun x => ?_
    have hx₁ := hp₁ x
    have hx₂ := hp₂ x
    have hx₃ := hp₃ x
    simp only [List.count_append] at hx₁ hx₂ hx₃ ⊢
    omega
  · refine ⟨Tree.fitMembers_append (Tree.fitMembers_of_forall fun m hm => ?_)
      (Tree.fitMembers_digestMember map path _), hp.fitDigests hparts hg hsd path, fun hne => ?_,
        fun key hkey => ⟨?_, fun hmem => ?_⟩, ?_⟩
    · have hmem := List.mem_append_left sel hm
      obtain ⟨x, hx⟩ := hp.exists_part m hmem
      rw [hp.of_kept m hm]
      refine ⟨Tree.memberFits_of_unreserved (hp.isValue hparts m hmem)
        (hu.member _ (mem_of_lookup hx)).1,
          hparts.fits (hg.mono (List.subset_append_left _ _) (List.subset_append_left _ _)) hx⟩
    · have hne' : p._sd ++ decoys ≠ [] := by
        rintro hnil
        rw [← hmap, List.map_eq_nil_iff] at hnil
        exact hne (List.Perm.eq_nil (hnil ▸ hsd))
      rw [keys, List.map_append, Tree.digestMember, if_neg hne']
      simp
    · obtain ⟨m, hm, rfl⟩ := List.mem_map.mp (hsub hkey)
      exact (hp.of_sel m hm).1
    · rw [keys, List.map_append] at hmem hnodup
      rcases List.mem_append.mp hmem with hmem | hmem
      · exact List.disjoint_of_nodup_append hnodup hmem (hsub hkey)
      · obtain rfl := Tree.mem_keys_digestMember hmem
        refine hp.not_mem hu digest_reserved ?_
        rw [keys, List.map_append]
        exact List.mem_append_right _ (hsub hkey)
    · have hnc := (hclaims.map Prod.fst).nodup_iff.mpr (hkeys.symm ▸ hnodup : (keys _).Nodup)
      rw [List.map_append] at hnc
      exact hnc.of_append_right

/-! ## All levels -/

namespace DisclosureFrame

@[induction_eliminator, elab_as_elim]
theorem induction {motive : DisclosureFrame → Prop} (undefined : motive undefined)
    (frame : ∀ _sd _sd_decoy frames, (∀ m ∈ frames, motive m.2) →
      motive (frame _sd _sd_decoy frames)) :
    ∀ f, motive f :=
  DisclosureFrame.rec (motive_1 := motive) (motive_2 := fun frames => ∀ m ∈ frames, motive m.2)
    (motive_3 := fun m => motive m.2) undefined frame (by simp)
    (fun _ _ h hs => List.forall_mem_cons.mpr ⟨h, hs⟩) (fun _ _ h => h)

end DisclosureFrame

/-- What a packed part is read as from an object, where a name that every object inherits has a
frame. -/
theorem packedOr_get {key : String} {claim : Value} (h : key ∈ inheritedNames → key ∈ keys R) :
    packedOr ((obj R).get key) claim = packedOr ((R.lookup key).getD undefined) claim := by
  cases hl : R.lookup key with
  | some packed => rw [get_obj_of_some hl, Option.getD_some]
  | none =>
    have hkey : key ∉ inheritedNames := fun hi => lookup_eq_none_iff.mp hl (h hi)
    have hundefined : inherited key = undefined := by
      simp only [inheritedNames, List.mem_cons, not_or] at hkey
      rw [inherited, if_neg hkey.1, if_neg (by simpa [prototypeNames] using hkey.2)]
    rw [get_obj_of_none hl, hundefined, Option.getD_none]

theorem lookup_append_entry {entry : List (String × Value)}
    (h : ∀ key ≠ SD_DECOY, entry.lookup key = none) {key : String} (hkey : key ≠ SD_DECOY) :
    (R ++ entry).lookup key = R.lookup key := by
  induction R with
  | nil => exact h key hkey
  | cons m R ih => rw [List.cons_append, List.lookup_cons, List.lookup_cons, ih]

theorem repr_ne_decoy (j : ℕ) : Nat.repr j ≠ SD_DECOY := by
  intro heq
  have hmem : '_' ∈ (Nat.repr j).toList := heq ▸ by decide
  exact absurd (isDigit_of_mem_repr hmem) (by decide)

theorem pack_suits (frame : DisclosureFrame) : PacksAt c frame := by
  induction frame with
  | undefined =>
    intro claims st r hj hu _ h
    cases h
    refine ⟨⟨[], _, packed_ofValue hj hu, .refl st⟩, ?_⟩
    rw [packedOr]
    split <;> rfl
  | frame _sd _sd_decoy frames ih =>
    intro claims st r hj hu hs h
    obtain ⟨hn, hframes, hshape⟩ := hs
    rw [pack] at h
    obtain ⟨⟨⟨R, ds⟩, st₁⟩, hR, h⟩ := bind_eq_ok.mp h
    obtain ⟨⟨entry, st₂⟩, hentry, h⟩ := bind_eq_ok.mp h
    obtain ⟨⟨⟨packed, ds'⟩, st₃⟩, hlevel, h⟩ := bind_eq_ok.mp h
    cases h
    obtain ⟨D, E, T, hparts, rfl, hsaw⟩ := packFrames_eq_ok hj hu ih hn hframes hR
    have hframed := isPart_of_suitFrames hframes
    cases claims with
    | leaf l => cases hshape
    | arr items =>
      obtain ⟨rfl, hlookup⟩ := packDecoyEntry_eq_ok hu (fun _ h => by cases h) hentry
      rw [packLevel] at hlevel
      obtain ⟨⟨⟨items', ds''⟩, st₄⟩, hitems, hlevel⟩ := bind_eq_ok.mp hlevel
      obtain ⟨⟨decoys, st₅⟩, hdecoys, hlevel⟩ := bind_eq_ok.mp hlevel
      cases hlevel
      obtain ⟨⟨ts, hts⟩, hsaw'⟩ := packItems_eq_ok hitems fun j x hx => by
        rw [Nat.zero_add, lookup_append_entry hlookup (repr_ne_decoy j)]
        exact hparts.packed (Nat.repr j) x ⟨j, rfl, hx⟩
      refine ⟨⟨_, _, packed_arr hparts hn hframed hts decoys, ?_⟩, rfl⟩
      simpa using hsaw.trans (hsaw'.trans (createDecoys_eq_ok hdecoys))
    | obj members =>
      obtain ⟨rfl, hlookup⟩ := packDecoyEntry_eq_ok hu (fun _ h => by cases h) hentry
      rw [packLevel] at hlevel
      · obtain ⟨⟨p, st₄⟩, hmembers, hlevel⟩ := bind_eq_ok.mp hlevel
        obtain ⟨⟨decoys, st₅⟩, hdecoys, hlevel⟩ := bind_eq_ok.mp hlevel
        cases hlevel
        have hnames := (obj_distinct_iff.mp hj.distinct).1
        obtain ⟨⟨kept, sel, hp⟩, hsaw'⟩ :=
            packMembers_eq_ok (D := D) (E := E) (T := T) hmembers (fun m hm => by
            have hkey := mem_keys_of_mem hm
            have hne : m.1 ≠ SD_DECOY := fun heq => (hu.member m hm).1 (heq ▸ decoy_reserved)
            rw [packedOr_get fun hi => ?_, lookup_append_entry hlookup hne]
            · exact hparts.packed m.1 m.2 (lookup_of_mem hnames hm)
            · rw [keys, List.map_append]
              refine List.mem_append_left _ ?_
              have hin := ((hshape m.1 hkey).inherited hi).2.2
              rwa [← hparts.keys_eq] at hin)
          (fun m hm heq => (((hshape m.1 (mem_keys_of_mem hm)).inherited
            (heq ▸ by simp [inheritedNames])).1) heq)
          fun m hm hsel => ⟨fun hi => ((hshape m.1 (mem_keys_of_mem hm)).inherited hi).2.1 hsel,
            (hshape m.1 (mem_keys_of_mem hm)).nonempty hsel⟩
        obtain ⟨t, ht⟩ := packed_obj hj hu hparts hn hframed hp decoys
        refine ⟨⟨_, t, ht, ?_⟩, rfl⟩
        simpa using hsaw.trans (hsaw'.trans (createDecoys_eq_ok hdecoys))
      · exact fun _ h => by cases h

end IdentityCommon.SdJwt
