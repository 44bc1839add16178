import IdentityCommon.SdJwt.Withholding
import IdentityCommon.SdJwt.SdJwt

/-!
# Presentations

What a holder reveals with a presentation frame: the disclosures at the paths of the frame, of which
none is without the disclosures around it.

## Main definitions

- `Tree.places` — the member names and indices of the disclosed claims, with their digests
- `framePlaces` — the member names and indices that a frame selects

## Main results

- `present_selects` — the disclosures of a presentation are those at the places of the frame, and
  processing succeeds with them

## Design notes

A path is a text in which the empty prefix is left out, so that the members of a claim with an empty
name are taken for the members of the credential. The credentials here have no such member.
-/

namespace IdentityCommon.SdJwt

open Ecma Common Value AssocList IdentityCommon.Except

variable {map map' : DisclosureMap}

/-! ## Paths -/

/-- The text of a path below another one. -/
def joinAll (path : String) (segments : List String) : String :=
  segments.foldl (fun path segment => joinPath path (encodePathSegment segment)) path

@[simp] theorem joinAll_nil (path : String) : joinAll path [] = path := rfl

@[simp] theorem joinAll_cons (path segment : String) (segments : List String) :
    joinAll path (segment :: segments) =
      joinAll (joinPath path (encodePathSegment segment)) segments := rfl

def encodeChar (c : Char) : List Char :=
  if c = '~' then ['~', '0'] else if c = '.' then ['~', '1'] else [c]

theorem toList_encodePathSegment (segment : String) :
    (encodePathSegment segment).toList = segment.toList.flatMap encodeChar := String.toList_ofList

theorem encodeChar_cases (c : Char) : (c = '~' ∧ encodeChar c = ['~', '0']) ∨
    (c = '.' ∧ encodeChar c = ['~', '1']) ∨
    (c ≠ '~' ∧ c ≠ '.' ∧ encodeChar c = [c]) := by
  by_cases htilde : c = '~'
  · exact .inl ⟨htilde, if_pos htilde⟩
  · by_cases hdot : c = '.'
    · exact .inr (.inl ⟨hdot, (if_neg htilde).trans (if_pos hdot)⟩)
    · exact .inr (.inr ⟨htilde, hdot, (if_neg htilde).trans (if_neg hdot)⟩)

theorem encodePathSegment_repr (n : ℕ) : encodePathSegment (Nat.repr n) = Nat.repr n := by
  have hchars : (Nat.repr n).toList.flatMap encodeChar =
      (Nat.repr n).toList.flatMap fun c => [c] := by
    refine List.flatMap_congr fun c hc => ?_
    have hdigit := isDigit_of_mem_repr hc
    rcases encodeChar_cases c with ⟨rfl, -⟩ | ⟨rfl, -⟩ | ⟨-, -, h⟩
    · exact absurd hdigit (by decide)
    · exact absurd hdigit (by decide)
    · exact h
  apply String.toList_injective
  rw [toList_encodePathSegment, hchars, List.flatMap_singleton']

theorem dot_not_mem_encodePathSegment (segment : String) :
    '.' ∉ (encodePathSegment segment).toList := by
  rw [toList_encodePathSegment, List.mem_flatMap]
  rintro ⟨c, -, hc⟩
  rcases encodeChar_cases c with ⟨-, h⟩ | ⟨-, h⟩ | ⟨-, hdot, h⟩
  · rw [h] at hc
    exact absurd hc (by decide)
  · rw [h] at hc
    exact absurd hc (by decide)
  · rw [h] at hc
    exact hdot (List.mem_singleton.mp hc).symm

/-- The first character can be told from an escaped text. -/
theorem encodeChar_append {c c' : Char} {cs cs' : List Char}
    (h : encodeChar c ++ cs = encodeChar c' ++ cs') :
    c = c' ∧ cs = cs' := by
  rcases encodeChar_cases c with ⟨hc, he⟩ | ⟨hc, he⟩ | ⟨htilde, hdot, he⟩ <;>
    rcases encodeChar_cases c' with ⟨hc', he'⟩ | ⟨hc', he'⟩ | ⟨htilde', hdot', he'⟩ <;>
      rw [he, he'] at h
  all_goals
    simp only [List.cons_append, List.nil_append, List.cons.injEq] at h
    grind

theorem encodeChar_ne_nil (c : Char) : encodeChar c ≠ [] := by
  rcases encodeChar_cases c with ⟨-, h⟩ | ⟨-, h⟩ | ⟨-, -, h⟩ <;> rw [h] <;> nofun

/-- The escapes of two texts differ where the texts do. -/
theorem flatMap_encodeChar_injective : Function.Injective (List.flatMap encodeChar) := by
  intro cs
  induction cs with
  | nil =>
    intro cs' h
    cases cs' with
    | nil => rfl
    | cons c cs' => exact absurd (List.append_eq_nil_iff.mp h.symm).1 (encodeChar_ne_nil c)
  | cons c cs ih =>
    intro cs' h
    cases cs' with
    | nil => exact absurd (List.append_eq_nil_iff.mp h).1 (encodeChar_ne_nil c)
    | cons c' cs' =>
      obtain ⟨rfl, hrest⟩ := encodeChar_append h
      exact congrArg (c :: ·) (ih hrest)

theorem encodePathSegment_injective : Function.Injective encodePathSegment := by
  intro s s' h
  have hlist := congrArg String.toList h
  rw [toList_encodePathSegment, toList_encodePathSegment] at hlist
  exact String.toList_injective (flatMap_encodeChar_injective hlist)

theorem encodePathSegment_eq_empty {segment : String} (h : encodePathSegment segment = "") :
    segment = "" :=
  encodePathSegment_injective (h.trans rfl)

theorem joinPath_ne_empty {path : String} (h : path ≠ "") (segment : String) :
    joinPath path segment ≠ "" := by
  rw [joinPath, if_neg h]
  intro hempty
  exact h (String.append_eq_empty_iff.mp (String.append_eq_empty_iff.mp hempty).1).1

/-- A path below one that is not empty: the segments follow points. -/
theorem toList_joinAll {path : String} (h : path ≠ "") (segments : List String) :
    (joinAll path segments).toList =
      ['.'].intercalate (path.toList :: segments.map fun segment =>
        (encodePathSegment segment).toList) := by
  induction segments generalizing path with
  | nil => simp
  | cons segment segments ih =>
    rw [joinAll_cons, ih (joinPath_ne_empty h _), joinPath, if_neg h]
    cases segments with
    | nil => simp [List.intercalate]
    | cons next segments => simp [List.intercalate]

theorem joinAll_eq {segment : String} (h : segment ≠ "") (segments : List String) :
    joinAll "" (segment :: segments) = join ((segment :: segments).map encodePathSegment) '.' := by
  have hne : encodePathSegment segment ≠ "" := fun hempty => h (encodePathSegment_eq_empty hempty)
  apply String.toList_injective
  rw [joinAll_cons, joinPath, if_pos rfl, toList_joinAll hne, join, String.toList_ofList,
    List.map_cons, List.map_cons, List.map_map]
  rfl

theorem encodePath_eq (segments : List String) :
    encodePath segments = join (segments.map encodePathSegment) '.' := by
  apply String.toList_injective
  rw [encodePath, join, String.toList_ofList, String.toList_intercalate]
  rfl

/-- Two lists of segments that do not start with an empty one have different paths. -/
theorem encodePath_injective {segments segments' : List String} (hne : segments ≠ [])
    (hne' : segments' ≠ []) (h : encodePath segments = encodePath segments') :
    segments = segments' := by
  have hparts : ∀ (segments : List String), ∀ part ∈ segments.map encodePathSegment,
      '.' ∉ part.toList := by
    intro segments part hpart
    obtain ⟨segment, -, rfl⟩ := List.mem_map.mp hpart
    exact dot_not_mem_encodePathSegment segment
  rw [encodePath_eq, encodePath_eq] at h
  have hsplit := congrArg (split · '.') h
  rw [split_join (by simpa using hne) (hparts _),
    split_join (by simpa using hne') (hparts _)] at hsplit
  exact List.map_injective_iff.mpr encodePathSegment_injective hsplit

/-! ## Where the disclosed claims are -/

namespace Tree

mutual

/-- The member names and indices that lead to the disclosed claims, with their digests. -/
def places : Tree → List (List String × String)
  | arr items => placesItems 0 items
  | obj members sd => placesMembers members ++ placesMembers sd
  | disclosed digest content => ([], digest) :: places content
  | _ => []

def placesItems (idx : ℕ) : List Tree → List (List String × String)
  | [] => []
  | t :: items => (places t).map (fun p => (Nat.repr idx :: p.1, p.2)) ++
      placesItems (idx + 1) items

def placesMembers : List (String × Tree) → List (List String × String)
  | [] => []
  | (key, t) :: members => (places t).map (fun p => (key :: p.1, p.2)) ++ placesMembers members

end

theorem placesMembers_append (members members' : List (String × Tree)) :
    placesMembers (members ++ members') = placesMembers members ++ placesMembers members' := by
  induction members with
  | nil => rfl
  | cons m members ih => rw [List.cons_append, placesMembers, placesMembers, ih, List.append_assoc]

/-- The paths of the disclosed claims are those of their places. -/
theorem log_eq (t : Tree) (path : String) :
    t.log path = t.places.map fun p => (joinAll path p.1, p.2) := by
  have hmembers : ∀ (members : List (String × Tree)) (path : String),
      (∀ m ∈ members, ∀ path, m.2.log path = m.2.places.map fun p => (joinAll path p.1, p.2)) →
      logMembers path members = (placesMembers members).map fun p => (joinAll path p.1, p.2) := by
    intro members path ih
    induction members with
    | nil => rfl
    | cons m members ihs =>
      obtain ⟨hm, hmembers⟩ := List.forall_mem_cons.mp ih
      rw [logMembers, placesMembers, hm, ihs hmembers, List.map_append, List.map_map]
      rfl
  induction t generalizing path with
  | arr items ih =>
    rw [log, places]
    generalize 0 = idx
    induction items generalizing idx with
    | nil => rfl
    | cons t items ihs =>
      obtain ⟨ht, hitems⟩ := List.forall_mem_cons.mp ih
      rw [logItems, placesItems, ht, ihs hitems, List.map_append, List.map_map]
      congr 1
      refine List.map_congr_left fun p _ => ?_
      rw [Function.comp_apply, joinAll_cons, encodePathSegment_repr]
  | obj members sd ih ihsd =>
    rw [log, places, hmembers members path fun m hm => ih m hm,
      hmembers sd path fun m hm => ihsd m hm, List.map_append]
  | disclosed digest content ih =>
    rw [log, places, ih, List.map_cons]
    rfl
  | leaf l => rfl
  | raw v => rfl
  | digestList => rfl
  | hidden digest => rfl

/-- The disclosed claims are the disclosures that are used. -/
theorem digests_places (t : Tree) : t.places.map Prod.snd = keys t.contents := by
  have hmembers : ∀ members : List (String × Tree),
      (∀ m ∈ members, m.2.places.map Prod.snd = keys m.2.contents) →
      (placesMembers members).map Prod.snd = keys (contentsMembers members) := by
    intro members ih
    induction members with
    | nil => rfl
    | cons m members ihs =>
      obtain ⟨hm, hmembers⟩ := List.forall_mem_cons.mp ih
      rw [placesMembers, contentsMembers, List.map_append, List.map_map, ihs hmembers, keys, keys,
        List.map_append]
      exact congrArg (· ++ _) hm
  induction t with
  | arr items ih =>
    rw [contents, places]
    generalize 0 = idx
    induction items generalizing idx with
    | nil => rfl
    | cons t items ihs =>
      obtain ⟨ht, hitems⟩ := List.forall_mem_cons.mp ih
      rw [placesItems, contentsItems, List.map_append, List.map_map, ihs hitems, keys, keys,
        List.map_append]
      exact congrArg (· ++ _) ht
  | obj members sd ih ihsd =>
    rw [contents, places, List.map_append, hmembers members fun m hm => ih m hm,
      hmembers sd fun m hm => ihsd m hm, keys, keys, keys, List.map_append]
  | disclosed digest content ih =>
    rw [contents, places, List.map_cons, ih]
    rfl
  | leaf l => rfl
  | raw v => rfl
  | digestList => rfl
  | hidden digest => rfl

theorem exists_of_mem_placesItems {items : List Tree} {idx : ℕ} {p : List String × String}
    (h : p ∈ placesItems idx items) : ∃ n, idx ≤ n ∧ ∃ q, p.1 = Nat.repr n :: q := by
  induction items generalizing idx with
  | nil => cases h
  | cons t items ih =>
    rcases List.mem_append.mp h with h | h
    · obtain ⟨q, -, rfl⟩ := List.mem_map.mp h
      exact ⟨idx, le_rfl, _, rfl⟩
    · obtain ⟨n, hn, hq⟩ := ih h
      exact ⟨n, by omega, hq⟩

theorem exists_of_mem_placesMembers {members : List (String × Tree)} {p : List String × String}
    (h : p ∈ placesMembers members) : ∃ m ∈ members, ∃ q ∈ m.2.places, p = (m.1 :: q.1, q.2) := by
  induction members with
  | nil => cases h
  | cons m members ih =>
    rcases List.mem_append.mp h with h | h
    · obtain ⟨q, hq, rfl⟩ := List.mem_map.mp h
      exact ⟨m, List.mem_cons_self, q, hq, rfl⟩
    · obtain ⟨m', hm', hq⟩ := ih h
      exact ⟨m', List.mem_cons_of_mem _ hm', hq⟩

theorem mem_placesMembers {members : List (String × Tree)} {m : String × Tree} (hm : m ∈ members)
    {q : List String × String} (hq : q ∈ m.2.places) :
    (m.1 :: q.1, q.2) ∈ placesMembers members := by
  induction members with
  | nil => cases hm
  | cons m' members ih =>
    rcases List.mem_cons.mp hm with rfl | hm
    · exact List.mem_append_left _ (List.mem_map.mpr ⟨q, hq, rfl⟩)
    · exact List.mem_append_right _ (ih hm)

/-- The place of a value is not within it. -/
theorem places_ne_nil {t : Tree} (hv : t.isValue) : ∀ p ∈ t.places, p.1 ≠ [] := by
  intro p hp
  cases t with
  | leaf l => cases hp
  | arr items =>
    obtain ⟨n, -, q, hq⟩ := exists_of_mem_placesItems hp
    simp [hq]
  | obj members sd =>
    rw [places, ← placesMembers_append] at hp
    obtain ⟨m, -, q, -, rfl⟩ := exists_of_mem_placesMembers hp
    simp
  | raw v => cases hv
  | digestList => cases hv
  | hidden digest => cases hv
  | disclosed digest content => cases hv

/-- What has a place in it is revealed. -/
theorem exists_claims_of_places {t : Tree} {path : String} (hfit : Fits map path t)
    (h : t.places ≠ []) :
    ∃ v, t.claims = some v := by
  cases t with
  | arr items => exact ⟨_, rfl⟩
  | obj members sd => exact ⟨_, rfl⟩
  | disclosed digest content =>
    rw [claims]
    exact exists_claims hfit.1
  | leaf l => exact absurd rfl h
  | raw v => exact absurd rfl h
  | digestList => exact absurd rfl h
  | hidden digest => exact absurd rfl h

theorem mem_keys_claimsMembers_of_places {members : List (String × Tree)} {m : String × Tree}
    {path : String} (hm : m ∈ members) (hfit : Fits map path m.2) (h : m.2.places ≠ []) :
    m.1 ∈ keys (claimsMembers members) := by
  obtain ⟨v, hv⟩ := exists_claims_of_places hfit h
  induction members with
  | nil => cases hm
  | cons m' members ih =>
    rw [claimsMembers, keys, List.map_append]
    rcases List.mem_cons.mp hm with rfl | hm
    · exact List.mem_append_left _ (by simp [hv])
    · exact List.mem_append_right _ (ih hm)

/-- Places below members with distinct names are distinct when those below each of them are. -/
theorem nodup_placesMembers {members : List (String × Tree)}
    (hfit : ∀ m ∈ members, ∃ path, Fits map path m.2) (hn : (keys (claimsMembers members)).Nodup)
    (ih : ∀ m ∈ members, (m.2.places.map Prod.fst).Nodup) :
    ((placesMembers members).map Prod.fst).Nodup := by
  induction members with
  | nil => exact List.nodup_nil
  | cons m members ihs =>
    obtain ⟨key, t⟩ := m
    obtain ⟨⟨path, ht⟩, hmembers⟩ := List.forall_mem_cons.mp hfit
    obtain ⟨iht, ihmembers⟩ := List.forall_mem_cons.mp ih
    have hrest : (keys (claimsMembers members)).Nodup := by
      rw [claimsMembers, keys, List.map_append] at hn
      exact List.Nodup.of_append_right hn
    rw [placesMembers, List.map_append, List.map_map]
    refine List.Nodup.append ?_ (ihs hmembers hrest ihmembers) ?_
    · have hinj : Function.Injective (key :: · : List String → List String) :=
        fun _ _ h => (List.cons.inj h).2
      have hmap := iht.map hinj
      rwa [List.map_map] at hmap
    · rintro x hx hx'
      obtain ⟨p, hp, rfl⟩ := List.mem_map.mp hx
      obtain ⟨p', hp', heq⟩ := List.mem_map.mp hx'
      obtain ⟨⟨key', t'⟩, hmem, q, hq, rfl⟩ := exists_of_mem_placesMembers hp'
      obtain rfl : key' = key := (List.cons.inj heq).1
      obtain ⟨path', ht'⟩ := hmembers _ hmem
      obtain ⟨v, hv⟩ := exists_claims_of_places ht (List.ne_nil_of_mem hp)
      have hkey := mem_keys_claimsMembers_of_places hmem ht' (List.ne_nil_of_mem hq)
      rw [claimsMembers, hv, keys, List.map_append] at hn
      exact List.disjoint_of_nodup_append hn (List.mem_singleton_self _) hkey

/-- Every disclosed claim has a place of its own. -/
theorem nodup_places (hm : DistinctValues map) {t : Tree} {path : String} (hv : t.isValue)
    (hfit : Fits map path t) (hd : t.payload.Distinct) : (t.places.map Prod.fst).Nodup := by
  -- a part is a value of which this is shown, or a digest, whose own place is above those in its
  -- content
  have hpart : ∀ t : Tree, Part (fun t => t.payload.Distinct → (t.places.map Prod.fst).Nodup) t →
      (t.isValue → t.payload.Distinct) → (∀ key hash content, t = disclosed hash content →
        SdJwt.disclosed map hash = some (key, content.payload) → (t.places.map Prod.fst).Nodup) ∧
      (t.isValue → (t.places.map Prod.fst).Nodup) := by
    refine fun t hp hd => ⟨fun key hash content ht hdis => ?_,
      fun hv => part_of_isValue hv hp (hd hv)⟩
    subst ht
    rw [places, List.map_cons, List.nodup_cons]
    refine ⟨fun hmem => ?_, hp.2 (hm.disclosed hdis)⟩
    obtain ⟨p, hp', heq⟩ := List.mem_map.mp hmem
    exact places_ne_nil hp.1 p hp' heq
  refine fits_induction (motive := fun t => t.payload.Distinct → (t.places.map Prod.fst).Nodup)
    (fun l _ => List.nodup_nil) (fun path items hfit ih hd => ?_)
      (fun path members sd hfit ih ihsd hd => ?_) hv hfit hd
  · rw [payload, payloadItems_eq] at hd
    cases hd with
    | arr hd =>
      have hitems : ∀ t ∈ items, (t.places.map Prod.fst).Nodup := by
        intro t ht
        obtain ⟨hitem, hp⟩ := ih t ht
        obtain ⟨hdis, hval⟩ := hpart t hp fun _ => hd _ (List.mem_map_of_mem ht)
        rcases itemFits_cases hitem with ⟨hash, rfl, -⟩ | ⟨hash, content, rfl, hsome⟩ | ⟨hv, -⟩
        · exact List.nodup_nil
        · exact hdis _ hash content rfl hsome
        · exact hval hv
      rw [places]
      clear hd ih hfit
      generalize 0 = idx
      induction items generalizing idx with
      | nil => exact List.nodup_nil
      | cons t items ihs =>
        obtain ⟨ht, hitems⟩ := List.forall_mem_cons.mp hitems
        rw [placesItems, List.map_append, List.map_map]
        refine List.Nodup.append ?_ (ihs hitems (idx + 1)) ?_
        · have hinj : Function.Injective (Nat.repr idx :: · : List String → List String) :=
            fun _ _ h => (List.cons.inj h).2
          have hmap := ht.map hinj
          rwa [List.map_map] at hmap
        · rintro x hx hx'
          obtain ⟨p, -, rfl⟩ := List.mem_map.mp hx
          obtain ⟨p', hp', heq⟩ := List.mem_map.mp hx'
          obtain ⟨n, hn, q, hq⟩ := exists_of_mem_placesItems hp'
          rw [hq] at heq
          have hidx := repr_injective (List.cons.inj heq).1
          omega
  · have hnames := distinct_claims hm (t := obj members sd) rfl hfit hd rfl
    rw [obj_distinct_iff] at hnames
    rw [places, ← placesMembers_append]
    have hclaims : claimsMembers (members ++ sd) = claimsMembers members ++ claimsMembers sd := by
      clear hnames ih ihsd hd hfit
      induction members with
      | nil => rfl
      | cons m members ih =>
          rw [List.cons_append, claimsMembers, claimsMembers, ih, List.append_assoc]
    rw [payload, obj_distinct_iff] at hd
    have hfits : ∀ m ∈ members ++ sd, ∃ path, Fits map path m.2 := by
      intro m hmem
      rcases List.mem_append.mp hmem with hmem | hmem
      · exact (forall_fitMembers hfit.1 m hmem).2
      · exact (forall_fitDigests hfit.2.1 m hmem).2
    refine nodup_placesMembers hfits (hclaims ▸ hnames.1) ?_
    · intro m hmem
      rcases List.mem_append.mp hmem with hmem | hmem
      · obtain ⟨hmember, hp⟩ := ih m hmem
        obtain ⟨-, hval⟩ := hpart m.2 hp fun hv => hd.2 _ (mem_payloadMembers _ hmem hv)
        rcases memberFits_cases hmember with ⟨ht, -⟩ | ⟨v, ht, -⟩ | ⟨hv, -⟩
        · rw [ht]
          exact List.nodup_nil
        · rw [ht]
          exact List.nodup_nil
        · exact hval hv
      · obtain ⟨hdigest, hp⟩ := ihsd m hmem
        rcases digestFits_cases hdigest with ⟨hash, ht, -⟩ | ⟨hash, content, ht, hsome⟩
        · rw [ht]
          exact List.nodup_nil
        · refine (hpart m.2 hp fun hv => ?_).1 _ hash content ht hsome
          rw [ht] at hv
          cases hv

/-- What is disclosed at a place: its value, which fits, and where its own disclosed claims are. -/
def ContentAt (map : DisclosureMap) (t : Tree) (p : List String × String) : Prop :=
  ∃ content path key, content.isValue ∧ Fits map path content ∧
    SdJwt.disclosed map p.2 = some (key, content.payload) ∧
    ∀ q ∈ content.places, (p.1 ++ q.1, q.2) ∈ t.places

theorem contentAt {t : Tree} {path : String} (hv : t.isValue) (hfit : Fits map path t) :
    ∀ p ∈ t.places, ContentAt map t p := by
  -- a place in a part is a place in the value that it is a part of
  have hlift : ∀ {t s : Tree} {segment : String} {p : List String × String},
      (∀ q ∈ s.places, (segment :: q.1, q.2) ∈ t.places) → ContentAt map s p →
      ContentAt map t (segment :: p.1, p.2) := by
    rintro t s segment p hsub ⟨content, path, key, hv, hfit, hdis, hplaces⟩
    exact ⟨content, path, key, hv, hfit, hdis, fun q hq => hsub _ (hplaces q hq)⟩
  have hpart : ∀ s : Tree, Part (fun t => ∀ p ∈ t.places, ContentAt map t p) s →
      (∃ path, Fits map path s) →
      (∀ key hash content, s = disclosed hash content →
        SdJwt.disclosed map hash = some (key, content.payload) →
        ∀ p ∈ s.places, ContentAt map s p) ∧ (s.isValue → ∀ p ∈ s.places, ContentAt map s p) := by
    rintro s hp ⟨path, hfit⟩
    refine ⟨fun key hash content hs hdis p hmem => ?_, fun hv => part_of_isValue hv hp⟩
    subst hs
    rcases List.mem_cons.mp hmem with rfl | hmem
    · exact ⟨content, path, key, hp.1, hfit.2, hdis, fun q hq => List.mem_cons_of_mem _ hq⟩
    · obtain ⟨content', path', key', hv', hfit', hdis', hplaces⟩ := hp.2 p hmem
      exact ⟨content', path', key', hv', hfit', hdis',
        fun q hq => List.mem_cons_of_mem _ (hplaces q hq)⟩
  refine fits_induction (motive := fun t => ∀ p ∈ t.places, ContentAt map t p)
    (fun l p hp => by cases hp)
    (fun path items hfit ih p hp => ?_) (fun path members sd hfit ih ihsd p hp => ?_) hv hfit
  · have hitems : ∀ s ∈ items, ∀ q ∈ s.places, ContentAt map s q := by
      intro s hs
      obtain ⟨hitem, hpt⟩ := ih s hs
      obtain ⟨hdis, hval⟩ := hpart s hpt (forall_fitItems hfit s hs).2
      rcases itemFits_cases hitem with ⟨hash, rfl, -⟩ | ⟨hash, content, rfl, hsome⟩ | ⟨hv, -⟩
      · exact fun q hq => by cases hq
      · exact hdis _ hash content rfl hsome
      · exact hval hv
    suffices h : ∀ (rest : List Tree) (idx : ℕ), (∀ s ∈ rest, ∀ q ∈ s.places, ContentAt map s q) →
        (∀ q ∈ placesItems idx rest, q ∈ (arr items).places) →
        ∀ p ∈ placesItems idx rest, ContentAt map (arr items) p from
      h items 0 hitems (fun q hq => hq) p hp
    intro rest
    induction rest with
    | nil => exact fun idx _ _ p hp => by cases hp
    | cons s rest ihr =>
      intro idx hs hsub p hp
      obtain ⟨hs, hrest⟩ := List.forall_mem_cons.mp hs
      rcases List.mem_append.mp hp with hp | hp
      · obtain ⟨q, hq, rfl⟩ := List.mem_map.mp hp
        refine hlift (fun q hq => hsub _ (List.mem_append_left _ ?_)) (hs q hq)
        exact List.mem_map.mpr ⟨q, hq, rfl⟩
      · exact ihr (idx + 1) hrest (fun q hq => hsub _ (List.mem_append_right _ hq)) p hp
  · rw [places, ← placesMembers_append] at hp
    obtain ⟨m, hmem, q, hq, rfl⟩ := exists_of_mem_placesMembers hp
    refine hlift (fun q hq => ?_) (?_ : ContentAt map m.2 q)
    · rw [places, ← placesMembers_append]
      exact mem_placesMembers hmem hq
    · rcases List.mem_append.mp hmem with hmem | hmem
      · obtain ⟨hmember, hpt⟩ := ih m hmem
        obtain ⟨-, hval⟩ := hpart m.2 hpt (forall_fitMembers hfit.1 m hmem).2
        rcases memberFits_cases hmember with ⟨ht, -⟩ | ⟨v, ht, -⟩ | ⟨hv, -⟩
        · rw [ht] at hq
          cases hq
        · rw [ht] at hq
          cases hq
        · exact hval hv q hq
      · obtain ⟨hdigest, hpt⟩ := ihsd m hmem
        obtain ⟨hdis, -⟩ := hpart m.2 hpt (forall_fitDigests hfit.2.1 m hmem).2
        rcases digestFits_cases hdigest with ⟨hash, ht, -⟩ | ⟨hash, content, ht, hsome⟩
        · rw [ht] at hq
          cases hq
        · exact hdis _ hash content ht hsome q hq

end Tree

/-! ## What a frame selects -/

/-- Whether an entry of a frame selects the claim itself. -/
def selects : Value → Bool
  | .leaf (.bool true) | .obj _ | .arr _ => true
  | _ => false

mutual

/-- The member names and indices that lead to the claims that a frame selects. -/
def framePlaces : Value → List (List String)
  | .obj entries => frameEntries entries
  | .arr items => frameItems 0 items
  | .leaf _ => []

def frameEntries : List (String × Value) → List (List String)
  | [] => []
  | (key, value) :: entries =>
    (if selects value then [[key]] else []) ++ (framePlaces value).map (key :: ·) ++
    frameEntries entries

def frameItems (idx : ℕ) : List Value → List (List String)
  | [] => []
  | value :: items => (if selects value then [[Nat.repr idx]] else []) ++
    (framePlaces value).map (Nat.repr idx :: ·) ++ frameItems (idx + 1) items

end

theorem transformEntries_cons (path : List String) (key : String) (value : Value)
    (entries : List (String × Value)) :
    transformEntries path ((key, value) :: entries) =
      (if selects value then [encodePath (path ++ [key])] else []) ++
      transformPresentationFrame (path ++ [key]) value ++ transformEntries path entries := by
  cases value with
  | arr items => rfl
  | obj members => rfl
  | leaf l =>
    cases l with
    | bool b => cases b <;> rfl
    | _ => rfl

theorem transformItems_cons (path : List String) (idx : ℕ) (value : Value) (items : List Value) :
    transformItems path idx (value :: items) =
      (if selects value then [encodePath (path ++ [Nat.repr idx])] else []) ++
      transformPresentationFrame (path ++ [Nat.repr idx]) value ++
      transformItems path (idx + 1) items := by
  cases value with
  | arr items => rfl
  | obj members => rfl
  | leaf l =>
    cases l with
    | bool b => cases b <;> rfl
    | _ => rfl

/-- The paths of an entry are those of its places. -/
theorem transform_entry {segment : String} {path : List String} {value : Value}
    (ih : transformPresentationFrame (path ++ [segment]) value =
      (framePlaces value).map fun p => encodePath (path ++ [segment] ++ p)) :
    (if selects value then [encodePath (path ++ [segment])] else []) ++
        transformPresentationFrame (path ++ [segment]) value =
      ((if selects value then [[segment]] else []) ++ (framePlaces value).map (segment :: ·)).map
        fun p => encodePath (path ++ p) := by
  rw [ih, List.map_append, List.map_map]
  congr 1
  · split <;> rfl
  · exact List.map_congr_left fun p _ => by simp

/-- The paths of a frame are those of the places that it selects. -/
theorem transformPresentationFrame_eq (value : Value) (path : List String) :
    transformPresentationFrame path value = (framePlaces value).map fun p => encodePath
      (path ++ p) := by
  induction value generalizing path with
  | leaf l => rfl
  | arr items ih =>
    rw [transformPresentationFrame, framePlaces]
    generalize 0 = idx
    induction items generalizing idx with
    | nil => rfl
    | cons value items ihs =>
      obtain ⟨hvalue, hitems⟩ := List.forall_mem_cons.mp ih
      rw [transformItems_cons, frameItems, List.map_append, ← ihs hitems,
        transform_entry (hvalue _)]
  | obj entries ih =>
    rw [transformPresentationFrame, framePlaces]
    induction entries with
    | nil => rfl
    | cons m entries ihs =>
      obtain ⟨hm, hentries⟩ := List.forall_mem_cons.mp ih
      rw [transformEntries_cons, frameEntries, List.map_append, ← ihs hentries,
        transform_entry (hm _)]

/-- The places of a member of a frame. -/
theorem mem_frameEntries {entries : List (String × Value)} {p : List String} :
    p ∈ frameEntries entries ↔ ∃ m ∈ entries, (selects m.2 ∧ p = [m.1]) ∨
    ∃ q ∈ framePlaces m.2, p = m.1 :: q := by
  induction entries with
  | nil => simp [frameEntries]
  | cons m entries ih =>
    obtain ⟨key, value⟩ := m
    rw [frameEntries, List.mem_append, List.mem_append, ih, List.exists_mem_cons_iff]
    refine or_congr (or_congr ?_ ?_) Iff.rfl
    · split <;> simp_all
    · simp [eq_comm]

theorem mem_frameItems {items : List Value} {idx : ℕ} {p : List String} :
    p ∈ frameItems idx items ↔ ∃ n value, items[n]? = some value ∧
      ((selects value ∧ p = [Nat.repr (idx + n)]) ∨
        ∃ q ∈ framePlaces value, p = Nat.repr (idx + n) :: q) := by
  induction items generalizing idx with
  | nil => simp [frameItems]
  | cons value items ih =>
    rw [frameItems, List.mem_append, List.mem_append, ih]
    constructor
    · rintro ((h | h) | ⟨n, value', hget, h⟩)
      · split at h
        case isTrue hsel => exact ⟨0, value, rfl, .inl ⟨hsel, by simpa using h⟩⟩
        case isFalse => cases h
      · obtain ⟨q, hq, rfl⟩ := List.mem_map.mp h
        exact ⟨0, value, rfl, .inr ⟨q, hq, rfl⟩⟩
      · refine ⟨n + 1, value', hget, ?_⟩
        rwa [show idx + (n + 1) = idx + 1 + n by omega]
    · rintro ⟨n, value', hget, h⟩
      cases n with
      | zero =>
        obtain rfl : value = value' := Option.some.inj hget
        rcases h with ⟨hsel, rfl⟩ | ⟨q, hq, rfl⟩
        · exact .inl (.inl (by simp [hsel]))
        · exact .inl (.inr (List.mem_map.mpr ⟨q, hq, rfl⟩))
      | succ n =>
        refine .inr ⟨n, value', hget, ?_⟩
        rwa [show idx + 1 + n = idx + (n + 1) by omega]

theorem framePlaces_ne_nil {frame : Value} : ∀ p ∈ framePlaces frame, p ≠ [] := by
  intro p hp
  cases frame with
  | leaf l => cases hp
  | arr items =>
    obtain ⟨n, value, -, ⟨-, rfl⟩ | ⟨q, -, rfl⟩⟩ := mem_frameItems.mp hp <;> nofun
  | obj entries =>
    obtain ⟨m, -, ⟨-, rfl⟩ | ⟨q, -, rfl⟩⟩ := mem_frameEntries.mp hp <;> nofun

theorem selects_of_mem_framePlaces {frame : Value} {p : List String} (h : p ∈ framePlaces frame) :
    selects frame := by
  cases frame with
  | leaf l => cases h
  | arr items => rfl
  | obj entries => rfl

/-- A frame selects what is around a claim that it selects. -/
theorem framePlaces_prefix {frame : Value} {p q : List String} (hp : p ≠ [])
    (h : p ++ q ∈ framePlaces frame) :
    p ∈ framePlaces frame := by
  induction frame generalizing p with
  | leaf l => cases h
  | arr items ih =>
    obtain ⟨segment, p, rfl⟩ := List.exists_cons_of_ne_nil hp
    obtain ⟨n, value, hget, h⟩ := mem_frameItems.mp h
    refine mem_frameItems.mpr ⟨n, value, hget, ?_⟩
    rcases h with ⟨hsel, heq⟩ | ⟨q', hq', heq⟩
    · obtain ⟨rfl, hnil⟩ := List.cons.inj heq
      obtain ⟨rfl, -⟩ := List.append_eq_nil_iff.mp hnil
      exact .inl ⟨hsel, rfl⟩
    · obtain ⟨rfl, rfl⟩ := List.cons.inj heq
      by_cases hnil : p = []
      · subst hnil
        exact .inl ⟨selects_of_mem_framePlaces hq', rfl⟩
      · exact .inr ⟨p, ih value (List.mem_of_getElem? hget) hnil hq', rfl⟩
  | obj entries ih =>
    obtain ⟨segment, p, rfl⟩ := List.exists_cons_of_ne_nil hp
    obtain ⟨m, hm, h⟩ := mem_frameEntries.mp h
    refine mem_frameEntries.mpr ⟨m, hm, ?_⟩
    rcases h with ⟨hsel, heq⟩ | ⟨q', hq', heq⟩
    · obtain ⟨rfl, hnil⟩ := List.cons.inj heq
      obtain ⟨rfl, -⟩ := List.append_eq_nil_iff.mp hnil
      exact .inl ⟨hsel, rfl⟩
    · obtain ⟨rfl, rfl⟩ := List.cons.inj heq
      by_cases hnil : p = []
      · subst hnil
        exact .inl ⟨selects_of_mem_framePlaces hq', rfl⟩
      · exact .inr ⟨p, ih m hm hnil hq', rfl⟩

/-- A frame selects a place once. -/
theorem nodup_framePlaces {frame : Value} (hd : frame.Distinct) : (framePlaces frame).Nodup := by
  -- the places of one entry, then those of the others, which start with other segments
  have hentry : ∀ (segment : String) (value : Value), (framePlaces value).Nodup →
      ((if selects value then [[segment]] else []) ++
        (framePlaces value).map (segment :: ·)).Nodup := by
    intro segment value hn
    refine List.Nodup.append ?_ (hn.map fun _ _ h => (List.cons.inj h).2) ?_
    · split <;> simp
    · intro p hp hp'
      obtain ⟨q, hq, rfl⟩ := List.mem_map.mp hp'
      split at hp
      · exact framePlaces_ne_nil q hq (List.cons.inj (List.mem_singleton.mp hp)).2
      · cases hp
  have hhead : ∀ (segment : String) (value : Value) (p : List String),
      p ∈ (if selects value then [[segment]] else []) ++ (framePlaces value).map (segment :: ·) →
      ∃ q, p = segment :: q := by
    intro segment value p hp
    rcases List.mem_append.mp hp with hp | hp
    · split at hp
      · exact ⟨[], List.mem_singleton.mp hp⟩
      · cases hp
    · obtain ⟨q, -, rfl⟩ := List.mem_map.mp hp
      exact ⟨q, rfl⟩
  induction frame with
  | leaf l => exact List.nodup_nil
  | arr items ih =>
    cases hd with
    | arr hd =>
      rw [framePlaces]
      generalize 0 = idx
      induction items generalizing idx with
      | nil => exact List.nodup_nil
      | cons value items ihs =>
        obtain ⟨hv, hitems⟩ := List.forall_mem_cons.mp ih
        obtain ⟨hdv, hditems⟩ := List.forall_mem_cons.mp hd
        refine List.Nodup.append (hentry _ value (hv hdv)) (ihs hitems hditems (idx + 1))
          fun p hp hp' => ?_
        obtain ⟨q, rfl⟩ := hhead _ value p hp
        obtain ⟨n, value', -, ⟨-, heq⟩ | ⟨q', -, heq⟩⟩ := mem_frameItems.mp hp'
        · have hidx := repr_injective (List.cons.inj heq).1
          omega
        · have hidx := repr_injective (List.cons.inj heq).1
          omega
  | obj entries ih =>
    rw [obj_distinct_iff] at hd
    obtain ⟨hn, hd⟩ := hd
    rw [framePlaces]
    induction entries with
    | nil => exact List.nodup_nil
    | cons m entries ihs =>
      obtain ⟨hm, hentries⟩ := List.forall_mem_cons.mp ih
      obtain ⟨hdm, hdentries⟩ := List.forall_mem_cons.mp hd
      obtain ⟨hkey, hn⟩ := List.nodup_cons.mp hn
      refine List.Nodup.append (hentry m.1 m.2 (hm hdm))
        (ihs hentries hn hdentries) fun p hp hp' => ?_
      obtain ⟨q, rfl⟩ := hhead _ m.2 p hp
      obtain ⟨m', hm', ⟨-, heq⟩ | ⟨q', -, heq⟩⟩ := mem_frameEntries.mp hp'
      · exact hkey ((List.cons.inj heq).1 ▸ mem_keys_of_mem hm')
      · exact hkey ((List.cons.inj heq).1 ▸ mem_keys_of_mem hm')

/-! ## Digests as names -/

/-- The text of a hash of at least 16 bytes. -/
def IsDigest (digest : String) : Prop :=
  ∃ bytes : List UInt8, 16 ≤ bytes.length ∧ digest = uint8ArrayToBase64Url bytes

theorem IsDigest.length_le {digest : String} (h : IsDigest digest) : 22 ≤ digest.toList.length := by
  obtain ⟨bytes, hlen, rfl⟩ := h
  rw [uint8ArrayToBase64Url, String.toList_ofList, Base64url.length_encode]
  split <;> omega

theorem IsDigest.mem_chars {digest : String} (h : IsDigest digest) :
    ∀ c ∈ digest.toList, c ∈ Base64url.chars := by
  obtain ⟨bytes, -, rfl⟩ := h
  rw [uint8ArrayToBase64Url, String.toList_ofList]
  exact Base64url.mem_chars_of_encode bytes

/-- No object inherits a member with the name of a digest. -/
theorem IsDigest.not_inherited {digest : String} (h : IsDigest digest) :
    digest ∉ inheritedNames := by
  have hshort : ∀ name ∈ inheritedNames, name.toList.length < 22 := by decide
  exact fun hmem => absurd (hshort digest hmem) (by have := h.length_le; omega)

/-- What reading an inherited member gives is not the name of a digest. -/
theorem not_isDigest_inherited (key : String) : ¬ IsDigest ((inherited key).toText.getD "") := by
  intro h
  rw [inherited] at h
  split at h
  · exact absurd h.length_le (by decide)
  · split at h
    · refine absurd (h.mem_chars ' ' ?_) (by decide)
      simp only [toText, Option.getD_some, String.toList_append, List.mem_append]
      exact .inl (.inl (by decide))
    · exact absurd h.length_le (by decide)

theorem inherited_text_not_inherited (key : String) :
    (inherited key).toText.getD "" ∉ inheritedNames := by
  have hspace : ∀ name ∈ inheritedNames, ' ' ∉ name.toList := by decide
  rw [inherited]
  split
  · decide
  · split
    · intro h
      refine hspace _ h ?_
      simp only [toText, Option.getD_some, String.toList_append, List.mem_append]
      exact .inl (.inl (by decide))
    · decide

/-! ## The disclosures by their digests -/

def hashMap (hash : HasherAndAlg) (disclosures : List Disclosure) : DisclosureMap :=
  disclosures.map fun d => (d.digest hash, d)

theorem createHashMapping_eq_ok {hash : HasherAndAlg} {disclosures : List Disclosure} :
    createHashMapping disclosures hash = .ok map ↔ map = hashMap hash disclosures ∧
      (keys (hashMap hash disclosures)).Nodup ∧
      ∀ digest ∈ keys (hashMap hash disclosures), digest ∉ inheritedNames := by
  suffices h : ∀ start : DisclosureMap, (keys start).Nodup →
      (disclosures.foldlM (fun map disclosure =>
      let digest := disclosure.digest hash
      if digest ∈ keys map ∨ digest ∈ inheritedNames then
        throwSdJwt "Duplicate disclosure digest detected"
      else .ok (map ++ [(digest, disclosure)])) start = .ok map ↔
        map = start ++ hashMap hash disclosures ∧
        (keys (start ++ hashMap hash disclosures)).Nodup ∧
          ∀ digest ∈ keys (hashMap hash disclosures), digest ∉ inheritedNames) by
    exact h [] List.nodup_nil
  induction disclosures with
  | nil =>
    intro start hn
    simp only [List.foldlM_nil, hashMap, List.map_nil, List.append_nil]
    exact ⟨fun h => ⟨(Except.ok.inj h).symm, hn, nofun⟩, fun h => congrArg _ h.1.symm⟩
  | cons d disclosures ih =>
    intro start hn
    have hmap : start ++ hashMap hash (d :: disclosures) =
        start ++ [(d.digest hash, d)] ++ hashMap hash disclosures := by simp [hashMap]
    have hkeys : keys (hashMap hash (d :: disclosures)) =
        d.digest hash :: keys (hashMap hash disclosures) := rfl
    rw [List.foldlM_cons, hmap, hkeys, List.forall_mem_cons]
    dsimp only
    split
    case isTrue h =>
      refine ⟨nofun, fun ⟨_, hnodup, hi, _⟩ => ?_⟩
      rw [keys, List.map_append, List.map_append] at hnodup
      rcases h with h | h
      · exact absurd (List.mem_singleton_self _)
          (List.disjoint_of_nodup_append (List.Nodup.of_append_left hnodup) h)
      · exact absurd h hi
    case isFalse h =>
      obtain ⟨hnew, hi⟩ := not_or.mp h
      have hn' : (keys (start ++ [(d.digest hash, d)])).Nodup := by
        rw [keys, List.map_append]
        exact hn.append (List.nodup_singleton _) (by simpa using hnew)
      rw [ok_bind, ih _ hn']
      exact and_congr_right fun _ => and_congr_right fun _ => ⟨fun h => ⟨hi, h⟩, fun h => h.2⟩

theorem mem_hashMap {hash : HasherAndAlg} {disclosures : List Disclosure}
    {m : String × Disclosure} :
    m ∈ hashMap hash disclosures ↔ m.2 ∈ disclosures ∧ m.1 = m.2.digest hash := by
  constructor
  · intro h
    obtain ⟨d, hd, rfl⟩ := List.mem_map.mp h
    exact ⟨hd, rfl⟩
  · rintro ⟨hd, hm⟩
    exact List.mem_map.mpr ⟨m.2, hd, Prod.ext hm.symm rfl⟩

theorem unpack_eq_ok {members : List (String × Value)} {disclosures : List Disclosure}
    {hasher : Hasher} {r : Unpacked} : unpack members disclosures hasher = .ok r ↔ ∃ alg payload,
      getSdAlgAndPayload members = .ok (alg, payload) ∧
      (keys (hashMap ⟨hasher, alg⟩ disclosures)).Nodup ∧
        (∀ digest ∈ keys (hashMap ⟨hasher, alg⟩ disclosures), digest ∉ inheritedNames) ∧
          unpackObj (.obj payload) (hashMap ⟨hasher, alg⟩ disclosures) = .ok r := by
  rw [unpack]
  constructor
  · intro h
    obtain ⟨⟨alg, payload⟩, halg, h⟩ := bind_eq_ok.mp h
    obtain ⟨map, hmap, h⟩ := bind_eq_ok.mp h
    obtain ⟨rfl, hn, hi⟩ := createHashMapping_eq_ok.mp hmap
    exact ⟨alg, payload, halg, hn, hi, h⟩
  · rintro ⟨alg, payload, halg, hn, hi, h⟩
    exact bind_eq_ok.mpr ⟨_, halg, bind_eq_ok.mpr ⟨_, createHashMapping_eq_ok.mpr ⟨rfl, hn, hi⟩, h⟩⟩

/-! ## What is around a disclosed claim -/

variable {payload : Value} {r : Unpacked} {t : Tree}

/-- A used disclosure has a place. -/
theorem Explains.exists_place (ht : Explains map payload r t) {hash : String}
    (h : hash ∈ keys map) :
    ∃ p, (p, hash) ∈ t.places := by
  have hdis : disclosed map hash ≠ none := by
    rw [disclosed]
    cases hl : map.lookup hash with
    | none => exact absurd h (lookup_eq_none_iff.mp hl)
    | some d => exact fun h => by cases h
  have hmem := (Tree.mem_contents_of_mem_digests ht.isValue ht.fits _
    (ht.used h)).resolve_right hdis
  rw [← Tree.digests_places] at hmem
  obtain ⟨⟨p, digest⟩, hp, rfl⟩ := List.mem_map.mp hmem
  exact ⟨p, hp⟩

/-- A disclosure has one place. -/
theorem Explains.place_unique (ht : Explains map payload r t) {hash : String} {p q : List String}
    (hp : (p, hash) ∈ t.places) (hq : (q, hash) ∈ t.places) : p = q := by
  have hn : (t.places.map Prod.snd).Nodup := by
    rw [Tree.digests_places]
    exact (Tree.keys_contents_sublist ht.isValue ht.fits).nodup ht.nodup
  exact (Prod.mk.inj (List.inj_on_of_nodup_map hn hp hq rfl)).1

/-- A selection of places is ancestor closed when it has what is around each of its places. -/
theorem Explains.ancestorClosed_of_places (ht : Explains map payload r t) (hm : DistinctValues map)
    (hn : (keys map).Nodup) (hsub : map' ⊆ map) {selected : List String → Prop}
    (hinitial : ∀ p q, p ≠ [] → selected (p ++ q) → selected p)
    (hkept : ∀ hash ∈ keys map, hash ∈ keys map' ↔ ∃ p, selected p ∧ (p, hash) ∈ t.places) :
    AncestorClosed map map' := by
  rintro ⟨digest, d⟩ hmem hash hfound hhash
  have hdigest := mem_keys_of_mem hmem
  have hhash' : hash ∈ keys map := by
    obtain ⟨m, hm, rfl⟩ := List.mem_map.mp hhash
    exact mem_keys_of_mem (hsub hm)
  obtain ⟨p, hp⟩ := ht.exists_place hdigest
  obtain ⟨content, path, key, hv, hfit, hdis, hplaces⟩ := Tree.contentAt ht.isValue ht.fits _ hp
  -- the digest is in what is disclosed at the place of the other one
  have hin : hash ∈ content.digests := by
    have hcount := Tree.countsAt_core hm hash content
    rw [Tree.core_of_isValue hv] at hcount
    have hvalue : content.payload = d.value := by
      rcases disclosed_eq_some hdis with ⟨d', hd', -, hvalue⟩ | ⟨hnone, -⟩
      · cases hd'.symm.trans (lookup_of_mem hn hmem)
        exact hvalue.symm
      · exact absurd hdigest (lookup_eq_none_iff.mp hnone)
    have hpos : 0 < (foundDigests content.payload).count hash :=
      List.count_pos_iff.mpr (hvalue ▸ hfound)
    refine List.count_pos_iff.mp ?_
    rw [hcount path hv hfit (hm.disclosed hdis)]
    omega
  have hdis' : disclosed map hash ≠ none := by
    rw [disclosed]
    cases hl : map.lookup hash with
    | none => exact absurd hhash' (lookup_eq_none_iff.mp hl)
    | some d => exact fun h => by cases h
  have hmem' := (Tree.mem_contents_of_mem_digests hv hfit _ hin).resolve_right hdis'
  rw [← Tree.digests_places] at hmem'
  obtain ⟨⟨q, hash⟩, hq, rfl⟩ := List.mem_map.mp hmem'
  obtain ⟨p', hsel, hp'⟩ := (hkept _ hhash').mp hhash
  obtain rfl := ht.place_unique (hplaces _ hq) hp'
  exact (hkept _ hdigest).mpr ⟨p, hinitial p q (Tree.places_ne_nil ht.isValue _ hp) hsel, hp⟩

/-! ## The digests at the paths of a frame -/

/-- With no claim of an empty name at the top, the paths of the disclosed claims are those of a
frame. -/
theorem Explains.joinAll_eq (ht : Explains map payload r t) {members : List (String × Value)}
    (hobj : payload = .obj members) (htop : r.unpackedObj.child (.name "") = none)
    {p : List String × String} (hp : p ∈ t.places) :
    p.1 ≠ [] ∧ joinAll "" p.1 = encodePath p.1 := by
  have hne := Tree.places_ne_nil ht.isValue p hp
  refine ⟨hne, ?_⟩
  obtain ⟨segment, segments, hsegments⟩ := List.exists_cons_of_ne_nil hne
  have hpayload := ht.payload_eq.trans hobj
  have hclaims := ht.claims_eq
  have hfit := ht.fits
  have hsegment : segment ≠ "" := by
    rintro rfl
    cases t with
    | obj ms sd =>
      rw [Tree.claims] at hclaims
      rw [← Option.some.inj hclaims, child_name_obj, lookup_eq_none_iff, keys,
        List.map_append] at htop
      rw [Tree.places, ← Tree.placesMembers_append] at hp
      obtain ⟨⟨key, s⟩, hmem, q, hq, rfl⟩ := Tree.exists_of_mem_placesMembers hp
      obtain rfl : key = "" := (List.cons.inj hsegments).1
      refine htop ?_
      rcases List.mem_append.mp hmem with hmem | hmem
      · obtain ⟨-, path, hs⟩ := Tree.forall_fitMembers hfit.1 _ hmem
        exact List.mem_append_left _
          (Tree.mem_keys_claimsMembers_of_places hmem hs (List.ne_nil_of_mem hq))
      · obtain ⟨-, path, hs⟩ := Tree.forall_fitDigests hfit.2.1 _ hmem
        exact List.mem_append_right _
          (Tree.mem_keys_claimsMembers_of_places hmem hs (List.ne_nil_of_mem hq))
    | leaf l => cases hp
    | arr items => cases hpayload
    | raw v => cases hp
    | digestList => cases hp
    | hidden hash => cases hp
    | disclosed hash content => cases ht.isValue
  rw [hsegments, SdJwt.joinAll_eq hsegment, encodePath_eq]

/-- The paths of the disclosed claims lead to their digests. -/
theorem Explains.lookup_keymap (ht : Explains map payload r t) (hm : DistinctValues map)
    (hd : payload.Distinct) {members : List (String × Value)} (hobj : payload = .obj members)
    (htop : r.unpackedObj.child (.name "") = none) {p : List String} (hp : p ≠ []) {hash : String} :
    r.disclosureKeymap.lookup (encodePath p) = some hash ↔ (p, hash) ∈ t.places := by
  have hkeys : (t.log "") = t.places.map fun q => (encodePath q.1, q.2) := by
    rw [Tree.log_eq]
    exact List.map_congr_left fun q hq => Prod.ext (ht.joinAll_eq hobj htop hq).2 rfl
  have hplaces := Tree.nodup_places hm ht.isValue ht.fits (ht.payload_eq ▸ hd)
  have hinj : ∀ q ∈ t.places, encodePath q.1 = encodePath p → q.1 = p := fun q hq h =>
    encodePath_injective (ht.joinAll_eq hobj htop hq).1 hp h
  have hn : (keys (t.log "")).Nodup := by
    rw [hkeys, keys, List.map_map]
    have hmap : (t.places.map Prod.fst).map encodePath =
        t.places.map (Prod.fst ∘ fun q => (encodePath q.1, q.2)) := by
      rw [List.map_map]
      rfl
    rw [← hmap]
    refine List.Nodup.map_on (fun q hq q' hq' h => ?_) hplaces
    obtain ⟨x, hx, rfl⟩ := List.mem_map.mp hq
    obtain ⟨x', hx', rfl⟩ := List.mem_map.mp hq'
    exact encodePath_injective (ht.joinAll_eq hobj htop hx).1 (ht.joinAll_eq hobj htop hx').1 h
  have hassign : r.disclosureKeymap = t.log "" := by
    rw [ht.keymap_eq, assign, foldl_insert (by simpa using hn), List.nil_append]
  rw [hassign, ← mem_iff_lookup hn, hkeys]
  constructor
  · intro h
    obtain ⟨q, hq, heq⟩ := List.mem_map.mp h
    obtain ⟨hpath, rfl⟩ := Prod.mk.inj heq
    obtain rfl := hinj q hq hpath
    exact hq
  · exact fun h => List.mem_map.mpr ⟨(p, hash), h, rfl⟩

/-- All digests that processing comes to are texts of hashes. -/
def HashedThroughout (map : DisclosureMap) (payload : Value) : Prop :=
  ∀ hash, Reached map payload hash → IsDigest hash

theorem Explains.isDigest (ht : Explains map payload r t) (hh : HashedThroughout map payload)
    {hash : String} (h : hash ∈ t.digests) : IsDigest hash :=
  hh hash (Tree.reached_of_mem_digests ht.isValue ht.fits _
    (fun _ hf => .payload (ht.payload_eq ▸ hf)) _ h)

/-- What reading the map of disclosures at a path of a frame gives. -/
theorem Explains.hashmapGet_eq (ht : Explains map payload r t) (hh : HashedThroughout map payload)
    (key : String) :
    hashmapGet map (keymapText r.disclosureKeymap key) =
      ((r.disclosureKeymap.lookup key).bind fun digest => map.lookup digest).map some := by
  rw [keymapText]
  cases hk : r.disclosureKeymap.lookup key with
  | some digest =>
    have hdigest : digest ∈ t.digests := by
      have hmem := mem_of_lookup hk
      rw [ht.keymap_eq] at hmem
      have hlog : ∀ (ks start : DisclosureKeymap), ∀ m ∈ assign start ks, m ∈ start ∨ m ∈ ks := by
        intro ks
        induction ks with
        | nil => exact fun start m hm => .inl hm
        | cons k ks ih =>
          intro start m hm
          rcases ih _ m hm with hm | hm
          · exact (mem_of_mem_insert hm).elim (fun heq => .inr (heq ▸ List.mem_cons_self)) .inl
          · exact .inr (List.mem_cons_of_mem _ hm)
      have hmem := (hlog _ _ _ hmem).resolve_left nofun
      rw [Tree.log_eq] at hmem
      obtain ⟨q, hq, heq⟩ := List.mem_map.mp hmem
      have hsnd : digest ∈ t.places.map Prod.snd := List.mem_map.mpr ⟨q, hq, (Prod.mk.inj heq).2⟩
      rw [Tree.digests_places] at hsnd
      exact (Tree.keys_contents_sublist ht.isValue ht.fits).subset hsnd
    rw [Option.getD_some, Option.bind_some, hashmapGet]
    cases hl : map.lookup digest with
    | some d => rfl
    | none => exact if_neg (ht.isDigest hh hdigest).not_inherited
  | none =>
    rw [Option.getD_none, Option.bind_none, hashmapGet]
    cases hl : map.lookup ((inherited key).toText.getD "") with
    | some d =>
      have hmem := ht.used (mem_keys_of_mem (mem_of_lookup hl))
      exact absurd (ht.isDigest hh hmem) (not_isDigest_inherited key)
    | none => exact if_neg (inherited_text_not_inherited key)

theorem isJson_of_getSdAlgAndPayload {members payload : List (String × Value)} {alg : String}
    (h : getSdAlgAndPayload members = .ok (alg, payload)) (hj : (obj members).IsJson) :
    (obj payload).IsJson := by
  have hpayload : payload = members.filter (·.1 ≠ "_sd_alg") := by
    rw [getSdAlgAndPayload] at h
    split at h
    · cases h
      rfl
    · split at h
      · cases h
      · split at h
        · cases h
        · cases h
          rfl
    · cases h
  rw [hpayload]
  cases hj with
  | obj hn hm =>
    exact .obj (hn.sublist (List.Sublist.map _ List.filter_sublist)) fun m hmem => hm m
      (List.mem_of_mem_filter hmem)

/-- The disclosure at the path of a place. -/
def disclosureAt (map : DisclosureMap) (keymap : DisclosureKeymap) (p : List String) :
    Option Disclosure :=
  (keymap.lookup (encodePath p)).bind fun digest => map.lookup digest

section Frames

variable {hash : HasherAndAlg} {disclosures : List Disclosure} {members : List (String × Value)}

theorem Explains.disclosureAt_eq_some (ht : Explains (hashMap hash disclosures) (.obj members) r t)
    (hm : DistinctValues (hashMap hash disclosures)) (hn : (keys (hashMap hash disclosures)).Nodup)
    (hd : (obj members).Distinct) (htop : r.unpackedObj.child (.name "") = none)
    {p : List String} (hp : p ≠ []) {d : Disclosure} :
    disclosureAt (hashMap hash disclosures) r.disclosureKeymap p = some d ↔
      d ∈ disclosures ∧ (p, d.digest hash) ∈ t.places := by
  rw [disclosureAt, Option.bind_eq_some_iff]
  constructor
  · rintro ⟨digest, hdigest, hlookup⟩
    obtain ⟨hmem, heq⟩ := mem_hashMap.mp (mem_of_lookup hlookup)
    obtain rfl : digest = d.digest hash := heq
    exact ⟨hmem, (ht.lookup_keymap hm hd rfl htop hp).mp hdigest⟩
  · rintro ⟨hmem, hplace⟩
    exact ⟨_, (ht.lookup_keymap hm hd rfl htop hp).mpr hplace,
      lookup_of_mem hn (mem_hashMap.mpr ⟨hmem, rfl⟩)⟩

/-- The disclosures that a frame selects. -/
def chosenBy (map : DisclosureMap) (keymap : DisclosureKeymap) (frame : Value) : List Disclosure :=
  (framePlaces frame).filterMap (disclosureAt map keymap)

theorem Explains.mem_chosenBy (ht : Explains (hashMap hash disclosures) (.obj members) r t)
    (hm : DistinctValues (hashMap hash disclosures)) (hn : (keys (hashMap hash disclosures)).Nodup)
    (hd : (obj members).Distinct) (htop : r.unpackedObj.child (.name "") = none) {frame : Value}
    {d : Disclosure} :
    d ∈ chosenBy (hashMap hash disclosures) r.disclosureKeymap frame ↔
      d ∈ disclosures ∧ ∃ p ∈ framePlaces frame, (p, d.digest hash) ∈ t.places := by
  rw [chosenBy, List.mem_filterMap]
  constructor
  · rintro ⟨p, hp, hsome⟩
    obtain ⟨hmem, hplace⟩ :=
      (ht.disclosureAt_eq_some hm hn hd htop (framePlaces_ne_nil p hp)).mp hsome
    exact ⟨hmem, p, hp, hplace⟩
  · rintro ⟨hmem, p, hp, hplace⟩
    exact ⟨p, hp, (ht.disclosureAt_eq_some hm hn hd htop (framePlaces_ne_nil p hp)).mpr
      ⟨hmem, hplace⟩⟩

theorem Explains.nodup_chosenBy (ht : Explains (hashMap hash disclosures) (.obj members) r t)
    (hm : DistinctValues (hashMap hash disclosures)) (hn : (keys (hashMap hash disclosures)).Nodup)
    (hd : (obj members).Distinct) (htop : r.unpackedObj.child (.name "") = none) {frame : Value}
    (hframe : frame.Distinct) :
    (chosenBy (hashMap hash disclosures) r.disclosureKeymap frame).Nodup := by
  have hplaces := nodup_framePlaces hframe
  have hne := fun p (hp : p ∈ framePlaces frame) => framePlaces_ne_nil p hp
  rw [chosenBy]
  generalize framePlaces frame = places at hplaces hne
  induction places with
  | nil => exact List.nodup_nil
  | cons p places ih =>
    obtain ⟨hp, hplaces⟩ := List.nodup_cons.mp hplaces
    obtain ⟨hpne, hne⟩ := List.forall_mem_cons.mp hne
    have hrest := ih hplaces hne
    rw [List.filterMap_cons]
    split
    case h_1 => exact hrest
    case h_2 d hsome =>
      refine List.nodup_cons.mpr ⟨fun hmem => ?_, hrest⟩
      -- a disclosure has one place
      obtain ⟨p', hp', hsome'⟩ := List.mem_filterMap.mp hmem
      have hplace := ((ht.disclosureAt_eq_some hm hn hd htop hpne).mp hsome).2
      have hplace' := ((ht.disclosureAt_eq_some hm hn hd htop (hne p' hp')).mp hsome').2
      exact hp (ht.place_unique hplace hplace' ▸ hp')

/-- The digests of distinct disclosures of a credential are distinct. -/
theorem nodup_hashMap {chosen : List Disclosure} (hn : (keys (hashMap hash disclosures)).Nodup)
    (hsub : chosen ⊆ disclosures) (hchosen : chosen.Nodup) :
    (keys (hashMap hash chosen)).Nodup := by
  rw [keys, hashMap, List.map_map] at hn ⊢
  exact List.Nodup.map_on (fun d hd d' hd' h => List.inj_on_of_nodup_map hn
    (hsub hd) (hsub hd') h) hchosen

/-- What a holder presents of a credential whose tree is known. -/
theorem Explains.presents {s : SdJwt} {hasher : Hasher} {alg : String}
    {payload : List (String × Value)}
    (ht : Explains (hashMap ⟨hasher, alg⟩ disclosures) (.obj payload) r t)
    (hparts : s.parts = .ok (.obj members, disclosures))
    (halg : getSdAlgAndPayload members = .ok (alg, payload)) (hj : (obj payload).IsJson)
    (hm : DistinctValues (hashMap ⟨hasher, alg⟩ disclosures))
    (h : unpack members disclosures hasher = .ok r)
    (hh : HashedThroughout (hashMap ⟨hasher, alg⟩ disclosures) (.obj payload))
    (htop : r.unpackedObj.child (.name "") = none) (frame : Value) (hframe : frame.Distinct) :
    ∃ chosen, s.getPresentDisclosures (some frame) hasher = .ok (chosen.map some) ∧ chosen.Nodup ∧
      (∀ d, d ∈ chosen ↔ d ∈ disclosures ∧
        ∃ p ∈ framePlaces frame, (p, d.digest ⟨hasher, alg⟩) ∈ t.places) ∧
      ∃ r', unpack members chosen hasher = .ok r' ∧
        (t.prune (hashMap ⟨hasher, alg⟩ chosen)).claims = some r'.unpackedObj ∧
          Withholds r'.unpackedObj r.unpackedObj := by
  obtain ⟨alg', payload', halg', hn, hi, -⟩ := unpack_eq_ok.mp h
  cases halg.symm.trans halg'
  obtain ⟨chosen, hchosen⟩ : ∃ chosen, chosen =
      chosenBy (hashMap ⟨hasher, alg⟩ disclosures) r.disclosureKeymap frame :=
    ⟨_, rfl⟩
  have hmem : ∀ d, d ∈ chosen ↔ d ∈ disclosures ∧
      ∃ p ∈ framePlaces frame, (p, d.digest ⟨hasher, alg⟩) ∈ t.places :=
    fun d => hchosen ▸ ht.mem_chosenBy hm hn hj.distinct htop
  have hnodup : chosen.Nodup := hchosen ▸ ht.nodup_chosenBy hm hn hj.distinct htop hframe
  have hsub : chosen ⊆ disclosures := fun d hd => ((hmem d).mp hd).1
  have hsubMap : hashMap ⟨hasher, alg⟩ chosen ⊆ hashMap ⟨hasher, alg⟩ disclosures := by
    intro m hm'
    obtain ⟨hd, hdigest⟩ := mem_hashMap.mp hm'
    exact mem_hashMap.mpr ⟨hsub hd, hdigest⟩
  have hpresent : s.getPresentDisclosures (some frame) hasher = .ok (chosen.map some) := by
    rw [SdJwt.getPresentDisclosures, hparts, ok_bind]
    dsimp only [ownMembers]
    rw [halg, ok_bind]
    dsimp only
    rw [createHashMapping_eq_ok.mpr ⟨rfl, hn, hi⟩, ok_bind, h, ok_bind, ok_bind]
    refine congrArg _ ?_
    rw [transformPresentationFrame_eq, List.filterMap_map]
    have hget : ∀ p, hashmapGet (hashMap ⟨hasher, alg⟩ disclosures)
        (keymapText r.disclosureKeymap (encodePath ([] ++ p))) =
        (disclosureAt (hashMap ⟨hasher, alg⟩ disclosures) r.disclosureKeymap p).map some := fun p =>
      ht.hashmapGet_eq hh (encodePath p)
    rw [hchosen, chosenBy, List.map_filterMap]
    exact congrArg (List.filterMap · _) (funext hget)
  have hclosed : AncestorClosed (hashMap ⟨hasher, alg⟩ disclosures)
      (hashMap ⟨hasher, alg⟩ chosen) := by
    have hinitial : ∀ p q, p ≠ [] → p ++ q ∈ framePlaces frame → p ∈ framePlaces frame :=
      fun p q hp hq => framePlaces_prefix hp hq
    refine ht.ancestorClosed_of_places hm hn hsubMap hinitial fun hash hhash => ?_
    obtain ⟨⟨digest, d⟩, hd, rfl⟩ := List.mem_map.mp hhash
    obtain ⟨hd, hdigest⟩ := mem_hashMap.mp hd
    obtain rfl : digest = d.digest ⟨hasher, alg⟩ := hdigest
    constructor
    · intro hkept
      obtain ⟨⟨digest', d'⟩, hd', heq⟩ := List.mem_map.mp hkept
      obtain ⟨hmem', hdigest'⟩ := mem_hashMap.mp hd'
      obtain ⟨p, hp, hplace⟩ := ((hmem d').mp hmem').2
      exact ⟨p, hp, (hdigest'.symm.trans heq) ▸ hplace⟩
    · rintro ⟨p, hp, hplace⟩
      exact mem_keys_of_mem (mem_hashMap.mpr ⟨(hmem d).mpr ⟨hd, p, hp, hplace⟩, rfl⟩)
  obtain ⟨hiff, hall⟩ := ht.withheld hj hm hn hi hsubMap
  obtain ⟨r', hr'⟩ := hiff.mpr hclosed
  refine ⟨chosen, hpresent, hnodup, hmem, r',
    unpack_eq_ok.mpr ⟨alg, payload, halg, nodup_hashMap hn hsub hnodup,
      fun digest hdigest => ?_, hr'⟩, hall r' hr'⟩
  obtain ⟨m, hm', rfl⟩ := List.mem_map.mp hdigest
  exact hi _ (mem_keys_of_mem (hsubMap hm'))

/-- A presentation frame selects the disclosures at its places, each once, and the holder can
present them: processing with them succeeds and reveals the credential without the other
disclosures. -/
theorem present_selects {s : SdJwt} {hasher : Hasher}
    (hparts : s.parts = .ok (.obj members, disclosures)) (hj : (obj members).IsJson)
    (hm : ∀ d ∈ disclosures, d.value.IsJson) (h : unpack members disclosures hasher = .ok r)
    (hh : ∀ alg payload, getSdAlgAndPayload members = .ok (alg, payload) →
      HashedThroughout (hashMap ⟨hasher, alg⟩ disclosures) (.obj payload))
    (htop : r.unpackedObj.child (.name "") = none) (frame : Value) (hframe : frame.Distinct) :
    ∃ alg payload t chosen, Explains (hashMap ⟨hasher, alg⟩ disclosures) (.obj payload) r t ∧
      s.getPresentDisclosures (some frame) hasher = .ok (chosen.map some) ∧ chosen.Nodup ∧
      (∀ d, d ∈ chosen ↔ d ∈ disclosures ∧
        ∃ p ∈ framePlaces frame, (p, d.digest ⟨hasher, alg⟩) ∈ t.places) ∧
      ∃ r', unpack members chosen hasher = .ok r' ∧
        (t.prune (hashMap ⟨hasher, alg⟩ chosen)).claims = some r'.unpackedObj ∧
          Withholds r'.unpackedObj r.unpackedObj := by
  obtain ⟨alg, payload, halg, -, -, hobj⟩ := unpack_eq_ok.mp h
  have hj' := isJson_of_getSdAlgAndPayload halg hj
  have hdm : DistinctValues (hashMap ⟨hasher, alg⟩ disclosures) := fun m hmem =>
    (hm _ (mem_hashMap.mp hmem).1).distinct
  obtain ⟨t, ht⟩ := (exists_explains hdm hj'.distinct).mp hobj
  obtain ⟨chosen, hchosen⟩ :=
    ht.presents hparts halg hj' hdm h (hh alg payload halg) htop frame hframe
  exact ⟨alg, payload, t, chosen, ht, hchosen⟩

end Frames

/-! ## A credential with a disclosure in another one -/

def exampleHasher : Hasher := fun data _ => List.replicate 16 (UInt8.ofNat data.length)

def exampleDigest (n : UInt8) : String := uint8ArrayToBase64Url (List.replicate 16 n)

theorem isDigest_exampleDigest (n : UInt8) : IsDigest (exampleDigest n) :=
  ⟨List.replicate 16 n, List.length_replicate.ge, rfl⟩

def exampleDisclosures : List Disclosure := [
  { salt := "1", key := some "place_of_birth", _digest := some (exampleDigest 0),
    value := .obj [("country", .str "DE"), (SD_DIGEST, .arr [.str (exampleDigest 1)])] },
  { salt := "2", key := some "locality", _digest := some (exampleDigest 1),
    value := .str "Berlin" },
  { salt := "3", key := some "given_name", _digest := some (exampleDigest 2),
    value := .str "Erika" }]

def exampleMembers : List (String × Value) :=
  [("iss", .str "a"), (SD_DIGEST, .arr [.str (exampleDigest 0), .str (exampleDigest 2)])]

def exampleUnpacked : Unpacked where
  unpackedObj := .obj [("iss", .str "a"),
    ("place_of_birth", .obj [("country", .str "DE"), ("locality", .str "Berlin")]),
    ("given_name", .str "Erika")]
  disclosureKeymap := [("place_of_birth", exampleDigest 0),
    ("place_of_birth.locality", exampleDigest 1), ("given_name", exampleDigest 2)]

def exampleSdJwt : SdJwt :=
  { jwt := some { payload := some (.obj exampleMembers) }, disclosures := some exampleDisclosures }

/-- The locality is presented, and the name is not. -/
def examplePresentationFrame : Value := .obj [("place_of_birth", .obj [("locality", .bool true)])]

theorem hashedThroughout_example {alg : String} {payload : List (String × Value)}
    (h : getSdAlgAndPayload exampleMembers = .ok (alg, payload)) :
    HashedThroughout (hashMap ⟨exampleHasher, alg⟩ exampleDisclosures) (.obj payload) := by
  obtain rfl : payload = exampleMembers := (Prod.mk.inj (Except.ok.inj h)).2.symm
  have hpayload : foundDigests (.obj exampleMembers) = [exampleDigest 0, exampleDigest 2] := rfl
  have hvalues : exampleDisclosures.flatMap (foundDigests ·.value) = [exampleDigest 1] := rfl
  intro hash hreached
  cases hreached with
  | payload hmem =>
    rw [hpayload] at hmem
    rcases List.mem_pair.mp hmem with rfl | rfl
    · exact isDigest_exampleDigest 0
    · exact isDigest_exampleDigest 2
  | disclosure _ hlookup hmem =>
    have hd := (mem_hashMap.mp (mem_of_lookup hlookup)).1
    have hfound : hash ∈ exampleDisclosures.flatMap (foundDigests ·.value) :=
      List.mem_flatMap.mpr ⟨_, hd, hmem⟩
    rw [hvalues] at hfound
    obtain rfl := List.mem_singleton.mp hfound
    exact isDigest_exampleDigest 1

theorem unpack_example :
    unpack exampleMembers exampleDisclosures exampleHasher = .ok exampleUnpacked := rfl

theorem exampleDisclosures_isJson : ∀ d ∈ exampleDisclosures, d.value.IsJson := fun _ hd =>
  .of_isJson
    (List.all_eq_true.mp (show exampleDisclosures.all (·.value.isJson) = true by decide) _ hd)

theorem present_selects_example : ∃ chosen r', SdJwt.getPresentDisclosures exampleSdJwt
    (some examplePresentationFrame) exampleHasher = .ok (chosen.map some) ∧ List.Nodup chosen ∧
      unpack exampleMembers chosen exampleHasher = .ok r' ∧
      Withholds r'.unpackedObj exampleUnpacked.unpackedObj := by
  obtain ⟨alg, payload, t, chosen, -, h, hnodup, -, r', hr', -, hw⟩ :=
    present_selects (s := exampleSdJwt) rfl
    (.of_isJson (by decide)) exampleDisclosures_isJson unpack_example
      (fun _ _ => hashedThroughout_example) rfl
    examplePresentationFrame (IsJson.of_isJson (by decide)).distinct
  exact ⟨chosen, r', h, hnodup, hr', hw⟩

end IdentityCommon.SdJwt
