import Mathlib.Data.List.Induction
import IdentityCommon.Mdoc.OverDisclosure
import IdentityCommon.Mdoc.SelectElements

/-!
# What a holder discloses

A response discloses what answers the elements that are selected, and nothing that answers an
element that is left out.

## Main definitions

- `Selection.Answers` — the elements that answer a requested element, by itself or by the
  alternative set that was chosen
- `Selection.DisclosesOnly` — what may be disclosed

## Main results

- `Selection.selectElements_discloses` — what is disclosed is disclosed only for a selected element,
  with the document's values
-/

namespace IdentityCommon.Mdoc

open IdentityCommon.Except

variable {V : Type}

/-! ## The contents of a document -/

/-- What an element says, apart from its position. -/
abbrev Content (V : Type) :=
  DisclosedElementSource × Namespace × DataElementIdentifier × DataElementValue V

def ElementCandidate.content (e : ElementCandidate V) : Content V :=
  (e.source, e.nameSpace, e.elementIdentifier, e.elementValue)

def issuerContents (issuerSigned : IssuerNamespaceItems V) : List (Content V) :=
  issuerSigned.entries.flatMap fun n => n.2.map fun item => (.issuerSigned, n.1, item.1, item.2)

def deviceContents (deviceNamespaces : DeviceNamespaceItems V) : List (Content V) :=
  deviceNamespaces.entries.flatMap fun n =>
    n.2.entries.map fun item => (.deviceSigned, n.1, item.1, item.2)

theorem content_collectElements (issuerSigned : IssuerNamespaceItems V)
    (deviceNamespaces : DeviceNamespaceItems V) :
    (collectElements issuerSigned deviceNamespaces).map ElementCandidate.content =
      issuerContents issuerSigned ++ deviceContents deviceNamespaces := by
  have hcontents : (disclosedItems issuerSigned deviceNamespaces).map
      (fun item => (item 0).content) =
      issuerContents issuerSigned ++ deviceContents deviceNamespaces := by
    simp only [disclosedItems, List.map_append, List.map_flatMap, List.map_map]
    rfl
  have hposition : ∀ item ∈ disclosedItems issuerSigned deviceNamespaces, ∀ n, (item n).content =
      (item 0).content := by
    intro item hitem n
    rw [disclosedItems, List.mem_append, List.mem_flatMap, List.mem_flatMap] at hitem
    rcases hitem with ⟨entry, -, hitem⟩ | ⟨entry, -, hitem⟩
    all_goals
      obtain ⟨item', -, rfl⟩ := List.mem_map.mp hitem
      rfl
  rw [← hcontents]
  apply List.ext_getElem
  · simp [collectElements]
  · intro i hi hi'
    simp only [collectElements, List.getElem_map, List.getElem_mapIdx]
    exact hposition _ (List.getElem_mem _) i

/-- Pairs of keys of maps in a map are distinct. -/
theorem nodup_pairs {β γ : Type} (f : β → List (DataElementIdentifier × γ))
    (m : OrderedMap Namespace β) (hf : ∀ n ∈ m.entries, ((f n.2).map Prod.fst).Nodup) :
    (m.entries.flatMap fun n => (f n.2).map fun item => (n.1, item.1)).Nodup := by
  apply List.nodup_flatMap.mpr
  refine ⟨fun n hn => ?_, ?_⟩
  · rw [show (fun item : DataElementIdentifier × γ => (n.1, item.1)) =
      Prod.mk n.1 ∘ Prod.fst from rfl, ← List.map_map]
    exact (hf n hn).map fun _ _ h => congrArg Prod.snd h
  · have hkeys : m.entries.Pairwise fun n n' => n.1 ≠ n'.1 := List.pairwise_map.mp m.nodup
    refine hkeys.imp fun hne r hr hr' => hne ?_
    obtain ⟨item, -, rfl⟩ := List.mem_map.mp hr
    obtain ⟨item', -, heq⟩ := List.mem_map.mp hr'
    exact (congrArg Prod.fst heq).symm

def contentsOf (source : DisclosedElementSource) (issuerSigned : IssuerNamespaceItems V)
    (deviceNamespaces : DeviceNamespaceItems V) : List (Content V) :=
  match source with
  | .issuerSigned => issuerContents issuerSigned
  | .deviceSigned => deviceContents deviceNamespaces

theorem mem_issuerContents {issuerSigned : IssuerNamespaceItems V} {c : Content V} :
    c ∈ issuerContents issuerSigned ↔
      ∃ n items item, issuerSigned.get n = some items ∧ item ∈ items ∧
      c = (.issuerSigned, n, item.1, item.2) := by
  rw [issuerContents, List.mem_flatMap]
  constructor
  · rintro ⟨n, hn, hc⟩
    obtain ⟨item, hitem, rfl⟩ := List.mem_map.mp hc
    exact ⟨n.1, n.2, item, OrderedMap.get_eq_some.mpr hn, hitem, rfl⟩
  · rintro ⟨n, items, item, hn, hitem, rfl⟩
    exact ⟨(n, items), OrderedMap.get_eq_some.mp hn, List.mem_map.mpr ⟨item, hitem, rfl⟩⟩

theorem mem_deviceContents {deviceNamespaces : DeviceNamespaceItems V} {c : Content V} :
    c ∈ deviceContents deviceNamespaces ↔
      ∃ n items id v, deviceNamespaces.get n = some items ∧ items.get id = some v ∧
      c = (.deviceSigned, n, id, v) := by
  rw [deviceContents, List.mem_flatMap]
  constructor
  · rintro ⟨n, hn, hc⟩
    obtain ⟨item, hitem, rfl⟩ := List.mem_map.mp hc
    exact ⟨n.1, n.2, item.1, item.2, OrderedMap.get_eq_some.mpr hn,
      OrderedMap.get_eq_some.mpr hitem, rfl⟩
  · rintro ⟨n, items, id, v, hn, hitem, rfl⟩
    exact ⟨(n, items), OrderedMap.get_eq_some.mp hn,
      List.mem_map.mpr ⟨(id, v), OrderedMap.get_eq_some.mp hitem, rfl⟩⟩

theorem source_of_mem_contentsOf {source : DisclosedElementSource}
    {issuerSigned : IssuerNamespaceItems V} {deviceNamespaces : DeviceNamespaceItems V}
    {c : Content V} (h : c ∈ contentsOf source issuerSigned deviceNamespaces) :
    c.1 = source := by
  cases source with
  | issuerSigned =>
    obtain ⟨n, items, item, -, -, rfl⟩ := mem_issuerContents.mp h
    rfl
  | deviceSigned =>
    obtain ⟨n, items, id, v, -, -, rfl⟩ := mem_deviceContents.mp h
    rfl

/-- The elements from a source. -/
theorem content_filter_source (source : DisclosedElementSource)
    (issuerSigned : IssuerNamespaceItems V) (deviceNamespaces : DeviceNamespaceItems V) :
    ((collectElements issuerSigned deviceNamespaces).filter fun e => e.source = source).map
      ElementCandidate.content =
      contentsOf source issuerSigned deviceNamespaces := by
  have hself : ∀ {source' : DisclosedElementSource}, source' = source →
      (contentsOf source' issuerSigned deviceNamespaces).filter (fun c => c.1 = source) =
        contentsOf source' issuerSigned deviceNamespaces := by
    rintro _ rfl
    exact List.filter_eq_self.mpr fun c hc => decide_eq_true (source_of_mem_contentsOf hc)
  have hother : ∀ {source' : DisclosedElementSource}, source' ≠ source →
      (contentsOf source' issuerSigned deviceNamespaces).filter (fun c => c.1 = source) = [] := by
    intro source' hne
    apply List.filter_eq_nil_iff.mpr
    intro c hc heq
    exact hne ((source_of_mem_contentsOf hc).symm.trans (of_decide_eq_true heq))
  have hsplit := congrArg (List.filter fun c : Content V => c.1 = source)
    (content_collectElements issuerSigned deviceNamespaces)
  rw [List.filter_map, List.filter_append] at hsplit
  refine Eq.trans hsplit ?_
  cases source with
  | issuerSigned =>
    have hdevice : (deviceContents deviceNamespaces).filter (fun c => c.1 = .issuerSigned) = [] :=
      hother (show DisclosedElementSource.deviceSigned ≠ .issuerSigned by decide)
    rw [hdevice, List.append_nil]
    exact hself (show DisclosedElementSource.issuerSigned = .issuerSigned from rfl)
  | deviceSigned =>
    have hissuer : (issuerContents issuerSigned).filter (fun c => c.1 = .deviceSigned) = [] :=
      hother (show DisclosedElementSource.issuerSigned ≠ .deviceSigned by decide)
    rw [hissuer, List.nil_append]
    exact hself (show DisclosedElementSource.deviceSigned = .deviceSigned from rfl)

/-- The names of some contents. -/
def names (contents : List (Content V)) : List ElementReference :=
  contents.map fun c => (c.2.1, c.2.2.1)

theorem nodup_deviceNames (deviceNamespaces : DeviceNamespaceItems V) :
    (names (deviceContents deviceNamespaces)).Nodup := by
  have hpairs := nodup_pairs (fun items : OrderedMap DataElementIdentifier
    (DataElementValue V) => items.entries) deviceNamespaces fun n _ => n.2.nodup
  rw [names, deviceContents, List.map_flatMap]
  simp only [List.map_map]
  exact hpairs

/-- Where the names of a source are distinct, an element from it is known by its name. -/
theorem eq_of_name {issuerSigned : IssuerNamespaceItems V}
    {deviceNamespaces : DeviceNamespaceItems V} {e e' : ElementCandidate V}
    (hnodup : (names (contentsOf e.source issuerSigned deviceNamespaces)).Nodup)
    (he : e ∈ collectElements issuerSigned deviceNamespaces)
    (he' : e' ∈ collectElements issuerSigned deviceNamespaces) (hsource : e.source = e'.source)
    (hnameSpace : e.nameSpace = e'.nameSpace) (hid : e.elementIdentifier = e'.elementIdentifier) :
    e = e' := by
  rw [← content_filter_source, names, List.map_map] at hnodup
  exact List.inj_on_of_nodup_map hnodup (List.mem_filter.mpr ⟨he, decide_eq_true rfl⟩)
    (List.mem_filter.mpr ⟨he', decide_eq_true hsource.symm⟩) (Prod.ext hnameSpace hid)

/-- An identifier is device-signed once in a namespace. -/
theorem eq_of_deviceSigned {issuerSigned : IssuerNamespaceItems V}
    {deviceNamespaces : DeviceNamespaceItems V} {e e' : ElementCandidate V}
    (he : e ∈ collectElements issuerSigned deviceNamespaces)
    (he' : e' ∈ collectElements issuerSigned deviceNamespaces) (hsource : e.source = .deviceSigned)
    (hsource' : e'.source = .deviceSigned) (hnameSpace : e.nameSpace = e'.nameSpace)
    (hid : e.elementIdentifier = e'.elementIdentifier) : e = e' := by
  refine eq_of_name ?_ he he' (hsource.trans hsource'.symm) hnameSpace hid
  rw [hsource]
  exact nodup_deviceNames deviceNamespaces

/-! ## Claims of a holder -/

namespace MatchOptions

variable {o : MatchOptions V}

theorem mem_optionsFor_holder {r : ElementReference} {option : ElementOption V}
    (h : option ∈ o.optionsFor r.1 r.2 (o.holderLookup r.1 r.2)) (hmode : o.mode = .holder) :
    (option.alternativeElementSetIndex = none ∧ ∃ e, option.elements = [e] ∧
      o.holderLookup r.1 r.2 = some e) ∨
      ∃ index a set, option.alternativeElementSetIndex = some index ∧
        o.alternatives.find? (fun a => a.requestedElement = r) = some a ∧
        a.alternativeElementSets[index]? = some set ∧
        List.Forall₂ (fun m e => o.holderLookup m.1 m.2 = some e) set option.elements := by
  rcases List.mem_append.mp h with h | h
  · left
    obtain ⟨e, he, rfl⟩ := Option.map_eq_some_iff.mp (Option.mem_toList.mp h)
    exact ⟨rfl, e, rfl, he⟩
  · right
    rw [findAlternatives] at h
    cases ha : o.alternatives.find? fun a => a.requestedElement = r with
    | none =>
      rw [ha] at h
      cases h
    | some a =>
      rw [ha] at h
      obtain ⟨index, hindex, hoption⟩ := List.mem_mapIdx.mp (List.reduceOption_mem_iff.mp h)
      obtain ⟨hnumber, hall⟩ := alternativeOption_eq_some hoption
      refine ⟨index, a, _, hnumber, rfl, List.getElem?_eq_getElem hindex, ?_⟩
      simpa only [lookup, hmode] using hall

/-- What the claim of a requested element says. -/
theorem holderClaim_spec (hmode : o.mode = .holder) (index : ℕ)
    (r : Namespace × DataElementIdentifier × Bool) :
    (∃ claim failure from' reason, (o.holderClaim index r).1 = .failure claim failure from' reason ∧
      claim.nameSpace = r.1 ∧ claim.elementIdentifier = r.2.1 ∧ o.holderLookup r.1 r.2.1 = none) ∨
    ∃ claim first others listOptions, (o.holderClaim index r).1 =
      .success claim first others listOptions ∧
      claim.nameSpace = r.1 ∧ claim.elementIdentifier = r.2.1 ∧
      (first.alternativeElementSetIndex = none ↔ ∃ e, o.holderLookup r.1 r.2.1 = some e) ∧
      ∀ option ∈ first :: others, option ∈ o.optionsFor r.1 r.2.1 (o.holderLookup r.1 r.2.1) := by
  unfold holderClaim settle
  dsimp only
  split
  case h_1 first others hoptions =>
    right
    have hmem : ∀ option ∈ first :: others, option ∈ o.optionsFor r.1 r.2.1
        (o.holderLookup r.1 r.2.1) := by
      intro option hoption
      rw [← hoptions] at hoption
      exact List.mem_of_mem_filter hoption
    refine ⟨_, first, others, _, rfl, rfl, rfl, ⟨fun hnone => ?_, fun ⟨e, he⟩ => ?_⟩, hmem⟩
    · rcases mem_optionsFor_holder (r := (r.1, r.2.1))
        (hmem first List.mem_cons_self) hmode with ⟨-, e, -, he⟩ | ⟨i, -, -, hi, -⟩
      · exact ⟨e, he⟩
      · rw [hnone] at hi
        cases hi
    · -- the element itself is the first option, and is offered
      rw [he, optionsFor, Option.map_some, Option.toList_some, List.singleton_append,
        List.filter_cons_of_pos (by rfl)] at hoptions
      obtain ⟨rfl, -⟩ := List.cons.inj hoptions
      rfl
  case h_2 hoptions =>
    left
    refine ⟨_, _, _, _, rfl, rfl, rfl, ?_⟩
    by_contra hsome
    obtain ⟨e, he⟩ := Option.ne_none_iff_exists'.mp hsome
    rw [he, optionsFor, Option.map_some, Option.toList_some, List.singleton_append,
      List.filter_cons_of_pos (by rfl)] at hoptions
    cases hoptions

theorem holderLookup_eq_some {r : ElementReference} {e : ElementCandidate V}
    (h : o.holderLookup r.1 r.2 = some e) :
    e ∈ o.available ∧ e.nameSpace = r.1 ∧ (e.source = .deviceSigned → o.Authorized e) := by
  rcases Option.or_eq_some_iff.mp h with hissuer | ⟨-, hdevice⟩
  · obtain ⟨hmem, -, -⟩ := findElement_eq_some hissuer
    obtain ⟨havailable, hnameSpace, hsource⟩ := mem_inNamespace.mp hmem
    exact ⟨havailable, hnameSpace, fun hdevice => by rw [hsource] at hdevice; cases hdevice⟩
  · obtain ⟨havailable, hnameSpace, -, hauthorized⟩ :=
      mem_authorizedDeviceSigned.mp (List.mem_of_find?_eq_some hdevice)
    exact ⟨havailable, hnameSpace, fun _ => hauthorized⟩

end MatchOptions

namespace Selection

variable {s : Selection V}

/-! ## Answers -/

variable (s) in
/-- An element that answers a requested element: by itself, or as a member of the alternative set
that was chosen. -/
inductive Answers (r : ElementReference) (e : ElementCandidate V) : Prop
  | itself : s.chosenIndex r = none → s.matchOptions.holderLookup r.1 r.2 = some e → Answers r e
  | alternative {index : ℕ} {a : AlternativeDataElementsSet} {set : List ElementReference}
      {m : ElementReference} :
    s.chosenIndex r = some index →
    s.matchOptions.alternatives.find? (fun a => a.requestedElement = r) = some a →
    a.alternativeElementSets[index]? = some set → m ∈ set →
    s.matchOptions.holderLookup m.1 m.2 = some e → Answers r e

theorem Answers.available {r : ElementReference} {e : ElementCandidate V} (h : s.Answers r e) :
    e ∈ s.matchOptions.available ∧ (e.source = .deviceSigned → s.matchOptions.Authorized e) := by
  cases h with
  | itself _ hlookup =>
    obtain ⟨havailable, -, hauthorized⟩ := MatchOptions.holderLookup_eq_some hlookup
    exact ⟨havailable, hauthorized⟩
  | alternative _ _ _ _ hlookup =>
    obtain ⟨havailable, -, hauthorized⟩ := MatchOptions.holderLookup_eq_some hlookup
    exact ⟨havailable, hauthorized⟩

/-- A requested element that is left out and that the credential has. -/
def Declines (s : Selection V) (r : ElementReference) (e : ElementCandidate V) : Prop :=
  s.matchOptions.Requested r ∧ s.isSelected r = false ∧ s.matchOptions.holderLookup r.1 r.2 = some e

/-- The claims are those of the requested elements. -/
theorem mem_claims {m : ElementMatch V} :
    m ∈ s.claims ↔ ∃ index r, s.matchOptions.requestedElements[index]? = some r ∧
    (s.matchOptions.holderClaim index r).1 = m := by
  have hclaims : s.matchOptions.claims =
      s.matchOptions.requestedElements.mapIdx s.matchOptions.holderClaim := rfl
  rw [claims, matchElements, hclaims, List.mem_map]
  constructor
  · rintro ⟨claim, hclaim, rfl⟩
    obtain ⟨index, hindex, rfl⟩ := List.mem_mapIdx.mp hclaim
    exact ⟨index, _, List.getElem?_eq_getElem hindex, rfl⟩
  · rintro ⟨index, r, hr, rfl⟩
    obtain ⟨hindex, rfl⟩ := List.getElem?_eq_some_iff.mp hr
    exact ⟨_, List.mem_mapIdx.mpr ⟨index, hindex, rfl⟩, rfl⟩

variable (s) in
/-- The elements that answer a requested element together. -/
inductive AnsweredBy (r : ElementReference) : List (ElementCandidate V) → Prop
  | itself {e : ElementCandidate V} : s.chosenIndex r = none →
      s.matchOptions.holderLookup r.1 r.2 = some e → AnsweredBy r [e]
  | alternative {index : ℕ} {a : AlternativeDataElementsSet} {set : List ElementReference}
    {elements : List (ElementCandidate V)} : s.chosenIndex r = some index →
    s.matchOptions.alternatives.find? (fun a => a.requestedElement = r) = some a →
    a.alternativeElementSets[index]? = some set → elements ≠ [] →
    List.Forall₂ (fun m e => s.matchOptions.holderLookup m.1 m.2 = some e) set elements →
    AnsweredBy r elements

theorem AnsweredBy.mem_iff {r : ElementReference} {elements : List (ElementCandidate V)}
    (h : s.AnsweredBy r elements) (e : ElementCandidate V) : e ∈ elements ↔ s.Answers r e := by
  cases h with
  | @itself e' hchosen hlookup =>
    rw [List.mem_singleton]
    constructor
    · rintro rfl
      exact .itself hchosen hlookup
    · intro hanswers
      cases hanswers with
      | itself _ hlookup' => exact Option.some.inj (hlookup'.symm.trans hlookup)
      | alternative hchosen' =>
        rw [hchosen] at hchosen'
        cases hchosen'
  | alternative hchosen ha hset _ hall =>
    constructor
    · intro he
      obtain ⟨m, hm, hlookup⟩ := exists_of_forall₂ hall.flip he
      exact .alternative hchosen ha hset hm hlookup
    · intro hanswers
      cases hanswers with
      | itself hnone _ =>
        rw [hchosen] at hnone
        cases hnone
      | alternative hchosen' ha' hset' hm hlookup =>
        obtain rfl := Option.some.inj (hchosen.symm.trans hchosen')
        obtain rfl := Option.some.inj (ha.symm.trans ha')
        obtain rfl := Option.some.inj (hset.symm.trans hset')
        obtain ⟨e', he', hlookup'⟩ := exists_of_forall₂ hall hm
        exact Option.some.inj (hlookup'.symm.trans hlookup) ▸ he'

/-- The elements that are disclosed for a claim that is answered. -/
theorem answerOf_eq_ok {r : ElementReference} {first : ElementOption V}
    {others : List (ElementOption V)} {listOptions : Bool} (hoptions : ∀ option ∈ first :: others,
      option ∈ s.matchOptions.optionsFor r.1 r.2 (s.matchOptions.holderLookup r.1 r.2))
    {elements : List (ElementCandidate V)}
    (h : s.answerOf r first others listOptions = .ok elements) :
    s.AnsweredBy r elements := by
  rw [answerOf] at h
  split at h
  case h_1 index hchosen =>
    split at h
    case h_2 => cases h
    case h_1 chosen hfind =>
      cases h
      have hlisted : chosen ∈ first :: others := by
        have hmem := List.mem_of_find?_eq_some hfind
        split at hmem
        · exact hmem
        · cases hmem
      have hindex : chosen.alternativeElementSetIndex = some index := of_decide_eq_true
        (List.find?_some (p := fun option : ElementOption V =>
          option.alternativeElementSetIndex = some index) hfind)
      rcases MatchOptions.mem_optionsFor_holder (hoptions chosen hlisted) rfl with
        ⟨hnone, -⟩ | ⟨index', a, set, hindex', ha, hset, hall⟩
      · rw [hnone] at hindex
        cases hindex
      · obtain rfl := Option.some.inj (hindex.symm.trans hindex')
        exact .alternative hchosen ha hset chosen.nonempty hall
  case h_2 hchosen =>
    split at h
    case isTrue => cases h
    case isFalse hitself =>
      cases h
      have hnone := Option.not_isSome_iff_eq_none.mp hitself
      rcases MatchOptions.mem_optionsFor_holder (hoptions first List.mem_cons_self) rfl with
        ⟨-, e', helements, hlookup⟩ | ⟨i, -, -, hi, -⟩
      · have hhead : first.elements.head first.nonempty = e' := by
          simp only [helements, List.head_cons]
        rw [hhead]
        exact .itself hchosen hlookup
      · rw [hnone] at hi
        cases hi

/-- What is disclosed for the claim of a requested element. -/
theorem disclosedFor_eq_ok {index : ℕ} {r : Namespace × DataElementIdentifier × Bool}
    {elements : List (ElementCandidate V)}
    (h : s.disclosedFor (s.matchOptions.holderClaim index r).1 = .ok elements) :
    (s.isSelected (r.1, r.2.1) = false ∧ elements = []) ∨
      s.isSelected (r.1, r.2.1) = true ∧ s.AnsweredBy (r.1, r.2.1) elements ∧
      ∀ e ∈ elements, s.declinedFor e = none := by
  rcases MatchOptions.holderClaim_spec (o := s.matchOptions) rfl index r with
    ⟨claim, failure, from', reason, hclaim, hnameSpace, hid, -⟩ |
    ⟨claim, first, others, listOptions, hclaim, hnameSpace, hid, -, hoptions⟩
  · rw [hclaim, disclosedFor] at h
    split at h
    case isTrue hselected =>
      cases h
      rw [referenceOf, hnameSpace, hid, Bool.not_eq_true'] at hselected
      exact .inl ⟨hselected, rfl⟩
    case isFalse => cases h
  · rw [hclaim, disclosedFor] at h
    split at h
    case isTrue hselected =>
      cases h
      rw [referenceOf, hnameSpace, hid, Bool.not_eq_true'] at hselected
      exact .inl ⟨hselected, rfl⟩
    case isFalse hselected =>
      rw [referenceOf, hnameSpace, hid] at h hselected
      obtain ⟨elements', hanswer, h⟩ := bind_eq_ok.mp h
      obtain ⟨_, hdeclined, h⟩ := bind_eq_ok.mp h
      cases h
      refine .inr ⟨by simpa using hselected, answerOf_eq_ok (r := (r.1, r.2.1)) hoptions hanswer,
        fun e he => ?_⟩
      have hcheck := forM_eq_ok.mp hdeclined e he
      rw [checkDeclined] at hcheck
      split at hcheck
      case h_1 hnone => exact hnone
      case h_2 =>
        split at hcheck
        · cases hcheck
        · cases hcheck

/-! ## Putting the elements together -/

def issuerItems (d : Disclosure V) (nameSpace : Namespace) : List (ElementCandidate V) :=
  (d.issuerNamespaces.get nameSpace).getD []

def deviceValue (d : Disclosure V) (nameSpace : Namespace) (id : DataElementIdentifier) :
    Option (DataElementValue V) :=
  (d.deviceNamespaces.get nameSpace).bind (·.get id)

/-- Elements that are known by their positions, and where they are device-signed by their
identifiers. -/
def Distinguished (elements : List (ElementCandidate V)) : Prop :=
  ∀ e ∈ elements, ∀ e' ∈ elements, (e.position = e'.position → e = e') ∧
    (e.source = .deviceSigned → e'.source = .deviceSigned → e.nameSpace = e'.nameSpace →
      e.elementIdentifier = e'.elementIdentifier → e = e')

/-- A disclosure of some elements. -/
structure Holds (d : Disclosure V) (elements : List (ElementCandidate V)) : Prop where
  once : ∀ n, (issuerItems d n).Nodup
  issuer : ∀ n e, e ∈ issuerItems d n ↔ e ∈ elements ∧ e.source = .issuerSigned ∧ e.nameSpace = n
  device : ∀ n id v, deviceValue d n id = some v ↔ ∃ e ∈ elements, e.source = .deviceSigned ∧
    e.nameSpace = n ∧
    e.elementIdentifier = id ∧ e.elementValue = v

theorem holds_nothing : Holds (nothing : Disclosure V) [] := by
  refine ⟨fun n => List.nodup_nil, fun n e => ?_, fun n id v => ?_⟩
  · exact iff_of_false List.not_mem_nil fun h => absurd h.1 List.not_mem_nil
  · exact iff_of_false (fun h => by cases h) fun ⟨e, he, _⟩ => absurd he List.not_mem_nil

theorem holds_disclose_issuer {d : Disclosure V} {elements : List (ElementCandidate V)}
    (h : Holds d elements) {e : ElementCandidate V} (hsource : e.source = .issuerSigned)
    (hd : Distinguished (elements ++ [e])) :
    Holds (disclose d e) (elements ++ [e]) := by
  have hself : e ∈ elements ++ [e] := List.mem_append_right _ (List.mem_singleton_self e)
  have hitems : ∀ n, issuerItems (disclose d e) n =
      if n = e.nameSpace then
        if e.position ∈ (issuerItems d n).map ElementCandidate.position then issuerItems d n
        else issuerItems d n ++ [e]
      else issuerItems d n := by
    intro n
    rw [disclose, hsource, issuerItems]
    dsimp only
    rw [OrderedMap.get_set]
    by_cases hn : n = e.nameSpace
    · rw [if_pos hn, if_pos hn, Option.getD_some, hn]
      rfl
    · rw [if_neg hn, if_neg hn]
      rfl
  -- an item is there exactly when its position is
  have hposition : ∀ n, e.position ∈ (issuerItems d n).map ElementCandidate.position →
      e ∈ issuerItems d n := by
    intro n hmem
    obtain ⟨e', he', heq⟩ := List.mem_map.mp hmem
    have hfrom := ((h.issuer n e').mp he').1
    rw [← (hd e' (List.mem_append_left _ hfrom) e hself).1 heq]
    exact he'
  refine ⟨fun n => ?_, fun n e' => ?_, fun n id v => ?_⟩
  · rw [hitems]
    split_ifs with hn hmem
    · exact h.once n
    · refine (h.once n).append (List.nodup_singleton e) fun e' he' hsame => hmem ?_
      obtain rfl := List.mem_singleton.mp hsame
      exact List.mem_map_of_mem he'
    · exact h.once n
  · rw [hitems, List.mem_append, List.mem_singleton]
    split_ifs with hn hmem
    · constructor
      · intro he'
        obtain ⟨hfrom, hrest⟩ := (h.issuer n e').mp he'
        exact ⟨.inl hfrom, hrest⟩
      · rintro ⟨hfrom | rfl, hrest⟩
        · exact (h.issuer n e').mpr ⟨hfrom, hrest⟩
        · exact hposition n hmem
    · rw [List.mem_append, List.mem_singleton, h.issuer]
      constructor
      · rintro (⟨hfrom, hrest⟩ | rfl)
        · exact ⟨.inl hfrom, hrest⟩
        · exact ⟨.inr rfl, hsource, hn.symm⟩
      · rintro ⟨hfrom | rfl, hrest⟩
        · exact .inl ⟨hfrom, hrest⟩
        · exact .inr rfl
    · rw [h.issuer]
      constructor
      · rintro ⟨hfrom, hrest⟩
        exact ⟨.inl hfrom, hrest⟩
      · rintro ⟨hfrom | rfl, hrest⟩
        · exact ⟨hfrom, hrest⟩
        · exact absurd hrest.2.symm hn
  · have hsame : deviceValue (disclose d e) n id = deviceValue d n id := by
      rw [disclose, hsource]
      rfl
    rw [hsame, h.device]
    constructor
    · rintro ⟨e', he', hrest⟩
      exact ⟨e', List.mem_append_left _ he', hrest⟩
    · rintro ⟨e', he', hdevice, hrest⟩
      rcases List.mem_append.mp he' with he' | he'
      · exact ⟨e', he', hdevice, hrest⟩
      · obtain rfl := List.mem_singleton.mp he'
        rw [hsource] at hdevice
        cases hdevice

theorem holds_disclose_device {d : Disclosure V} {elements : List (ElementCandidate V)}
    (h : Holds d elements) {e : ElementCandidate V} (hsource : e.source = .deviceSigned)
    (hd : Distinguished (elements ++ [e])) :
    Holds (disclose d e) (elements ++ [e]) := by
  have hself : e ∈ elements ++ [e] := List.mem_append_right _ (List.mem_singleton_self e)
  have hitems : ∀ n, issuerItems (disclose d e) n = issuerItems d n := by
    intro n
    rw [disclose, hsource]
    rfl
  have hvalue : ∀ n id, deviceValue (disclose d e) n id =
      if n = e.nameSpace ∧ id = e.elementIdentifier then some e.elementValue
      else deviceValue d n id := by
    intro n id
    rw [disclose, hsource, deviceValue]
    dsimp only
    rw [OrderedMap.get_set]
    by_cases hn : n = e.nameSpace
    · rw [if_pos hn, Option.bind_some, OrderedMap.get_set, hn, deviceValue]
      by_cases hid : id = e.elementIdentifier
      · rw [if_pos hid, if_pos ⟨rfl, hid⟩]
      · rw [if_neg hid, if_neg fun h => hid h.2]
        cases d.deviceNamespaces.get e.nameSpace with
        | none => rfl
        | some items => rfl
    · rw [if_neg hn, if_neg fun h => hn h.1]
      rfl
  refine ⟨fun n => ?_, fun n e' => ?_, fun n id v => ?_⟩
  · rw [hitems]
    exact h.once n
  · rw [hitems, h.issuer, List.mem_append, List.mem_singleton]
    constructor
    · rintro ⟨hfrom, hrest⟩
      exact ⟨.inl hfrom, hrest⟩
    · rintro ⟨hfrom | rfl, hissuer, hrest⟩
      · exact ⟨hfrom, hissuer, hrest⟩
      · rw [hsource] at hissuer
        cases hissuer
  · rw [hvalue]
    split_ifs with hthis
    · obtain ⟨rfl, rfl⟩ := hthis
      constructor
      · intro heq
        exact ⟨e, hself, hsource, rfl, rfl, Option.some.inj heq⟩
      · rintro ⟨e', he', hdevice, hn, hid, rfl⟩
        rw [(hd e' he' e hself).2 hdevice hsource hn hid]
    · rw [h.device]
      constructor
      · rintro ⟨e', he', hrest⟩
        exact ⟨e', List.mem_append_left _ he', hrest⟩
      · rintro ⟨e', he', hdevice, hn, hid, hv⟩
        rcases List.mem_append.mp he' with he' | he'
        · exact ⟨e', he', hdevice, hn, hid, hv⟩
        · obtain rfl := List.mem_singleton.mp he'
          exact absurd ⟨hn.symm, hid.symm⟩ hthis

/-- What is put together holds the elements. -/
theorem holds_foldl {elements : List (ElementCandidate V)} (hd : Distinguished elements) :
    Holds (elements.foldl disclose nothing) elements := by
  induction elements using List.reverseRecOn with
  | nil => exact holds_nothing
  | append_singleton elements e ih =>
    have hbefore : Distinguished elements := fun e he e' he' =>
      hd e (List.mem_append_left _ he) e' (List.mem_append_left _ he')
    rw [List.foldl_append, List.foldl_cons, List.foldl_nil]
    cases hsource : e.source with
    | issuerSigned => exact holds_disclose_issuer (ih hbefore) hsource hd
    | deviceSigned => exact holds_disclose_device (ih hbefore) hsource hd

/-! ## What is disclosed -/

theorem distinguished_available {elements : List (ElementCandidate V)}
    (h : ∀ e ∈ elements, e ∈ s.matchOptions.available) : Distinguished elements := by
  intro e he e' he'
  exact ⟨MatchOptions.eq_of_position (h e he) (h e' he'), fun hsource hsource' hnameSpace hid =>
    eq_of_deviceSigned (h e he) (h e' he') hsource hsource' hnameSpace hid⟩

/-- What was checked of a selection, and what is disclosed. -/
theorem selectElements_eq_ok {d : Disclosure V} (h : s.selectElements = .ok d) :
    ∃ elements, Holds d elements ∧
    findAgeOverLimitViolations (disclosedIdentifiers d).entries = [] ∧
    (∀ e, e ∈ elements ↔ ∃ r, s.matchOptions.Requested r ∧ s.isSelected r = true ∧ s.Answers r e) ∧
    (∀ e ∈ elements, s.declinedFor e = none) ∧
    ∀ r, s.matchOptions.Requested r → s.isSelected r = true → ∃ answer, s.AnsweredBy r answer := by
  obtain ⟨_, -, h⟩ := bind_eq_ok.mp h
  obtain ⟨_, -, h⟩ := bind_eq_ok.mp h
  obtain ⟨answers, hanswers, h⟩ := bind_eq_ok.mp h
  obtain ⟨_, hlimit, h⟩ := bind_eq_ok.mp h
  cases h
  rw [mapM_eq_ok] at hanswers
  -- each claim has its answer, and each answer its claim
  have hclaim : ∀ {index : ℕ} {r : Namespace × DataElementIdentifier × Bool},
      s.matchOptions.requestedElements[index]? = some r →
      ∃ elements ∈ answers, s.disclosedFor (s.matchOptions.holderClaim index r).1 = .ok elements :=
    fun hr => exists_of_forall₂ hanswers (mem_claims.mpr ⟨_, _, hr, rfl⟩)
  have hanswer : ∀ elements ∈ answers, ∃ index r,
      s.matchOptions.requestedElements[index]? = some r ∧
      s.disclosedFor (s.matchOptions.holderClaim index r).1 = .ok elements := by
    intro elements helements
    obtain ⟨claim, hclaim, hdisclosed⟩ := exists_of_forall₂ hanswers.flip helements
    obtain ⟨index, r, hr, rfl⟩ := mem_claims.mp hclaim
    exact ⟨index, r, hr, hdisclosed⟩
  have hmem : ∀ e, e ∈ answers.flatten ↔ ∃ r, s.matchOptions.Requested r ∧ s.isSelected r = true ∧
      s.Answers r e := by
    intro e
    rw [List.mem_flatten]
    constructor
    · rintro ⟨elements, helements, he⟩
      obtain ⟨index, r, hr, hdisclosed⟩ := hanswer elements helements
      rcases disclosedFor_eq_ok hdisclosed with ⟨-, rfl⟩ | ⟨hselected, hby, -⟩
      · cases he
      · exact ⟨(r.1, r.2.1), ⟨r.2.2, List.mem_of_getElem? hr⟩, hselected, (hby.mem_iff e).mp he⟩
    · rintro ⟨r, ⟨retain, hr⟩, hselected, he⟩
      obtain ⟨index, hindex⟩ := List.mem_iff_getElem?.mp hr
      obtain ⟨elements, helements, hdisclosed⟩ := hclaim hindex
      rcases disclosedFor_eq_ok hdisclosed with ⟨hleft, -⟩ | ⟨-, hby, -⟩
      · exact absurd (hselected.symm.trans hleft) Bool.false_ne_true.symm
      · exact ⟨elements, helements, (hby.mem_iff e).mpr he⟩
  have hdistinguished : Distinguished answers.flatten := by
    apply distinguished_available (s := s)
    intro e he
    obtain ⟨r, -, -, hr⟩ := (hmem e).mp he
    exact hr.available.1
  refine ⟨answers.flatten, holds_foldl hdistinguished, ?_, hmem, fun e he => ?_,
    fun r ⟨retain, hr⟩ hselected => ?_⟩
  · rw [checkAgeOverLimit] at hlimit
    split at hlimit
    case isTrue hnone => exact hnone
    case isFalse => cases hlimit
  · obtain ⟨elements, helements, he⟩ := List.mem_flatten.mp he
    obtain ⟨index, r, -, hdisclosed⟩ := hanswer elements helements
    rcases disclosedFor_eq_ok hdisclosed with ⟨-, rfl⟩ | ⟨-, -, hdeclined⟩
    · cases he
    · exact hdeclined e he
  · obtain ⟨index, hindex⟩ := List.mem_iff_getElem?.mp hr
    obtain ⟨elements, -, hdisclosed⟩ := hclaim hindex
    rcases disclosedFor_eq_ok hdisclosed with ⟨hleft, -⟩ | ⟨-, hby, -⟩
    · exact absurd (hselected.symm.trans hleft) Bool.false_ne_true.symm
    · exact ⟨elements, hby⟩

/-- An element that is left out is known as declined. -/
theorem declinedFor_of_declines {r : ElementReference} {e : ElementCandidate V}
    (h : s.Declines r e) :
    s.declinedFor e ≠ none := by
  obtain ⟨⟨retain, hr⟩, hselected, hlookup⟩ := h
  obtain ⟨index, hindex, heq⟩ := List.getElem_of_mem hr
  have hclaim : (s.matchOptions.holderClaim index (r.1, r.2, retain)).1 ∈ s.claims :=
    mem_claims.mpr ⟨index, _, List.getElem?_eq_some_iff.mpr ⟨hindex, heq⟩, rfl⟩
  have hmem : (e, r) ∈ s.declinedElements := by
    apply List.mem_filterMap.mpr
    refine ⟨_, hclaim, ?_⟩
    rcases MatchOptions.holderClaim_spec (o := s.matchOptions) rfl index (r.1, r.2, retain) with
      ⟨claim, failure, from', reason, -, -, -, hnone⟩ |
      ⟨claim, first, others, listOptions, hsuccess, hnameSpace, hid, hfirst, hoptions⟩
    · exact absurd (hlookup.symm.trans hnone) (Option.some_ne_none e)
    · have hitself := hfirst.mpr ⟨e, hlookup⟩
      rcases MatchOptions.mem_optionsFor_holder (r := r)
          (hoptions first List.mem_cons_self) rfl with
        ⟨-, e', helements, hlookup'⟩ | ⟨i, -, -, hi, -⟩
      · obtain rfl := Option.some.inj (hlookup.symm.trans hlookup')
        have hhead : first.elements.head first.nonempty = e := by
          simp only [helements, List.head_cons]
        have href : referenceOf claim = r := Prod.ext hnameSpace hid
        rw [hsuccess, declined, hitself, href, hselected, hhead]
        rfl
      · rw [hitself] at hi
        cases hi
  rw [declinedFor, ne_eq, Option.map_eq_none_iff]
  intro hnone
  exact List.find?_eq_none.mp hnone (e, r) (List.mem_reverse.mpr hmem) (decide_eq_true rfl)

/-- An element is disclosed, issuer-signed as the item of the credential or device-signed with its
value. -/
def Discloses (d : Disclosure V) (e : ElementCandidate V) : Prop :=
  match e.source with
  | .issuerSigned => e ∈ issuerItems d e.nameSpace
  | .deviceSigned => deviceValue d e.nameSpace e.elementIdentifier = some e.elementValue

theorem Holds.discloses_iff {d : Disclosure V} {elements : List (ElementCandidate V)}
    (h : Holds d elements) (hall : ∀ e ∈ elements, e ∈ s.matchOptions.available)
    {e : ElementCandidate V} (he : e ∈ s.matchOptions.available) :
    Discloses d e ↔ e ∈ elements := by
  cases hsource : e.source with
  | issuerSigned =>
    rw [Discloses, hsource]
    exact (h.issuer _ e).trans ⟨fun hmem => hmem.1, fun hmem => ⟨hmem, hsource, rfl⟩⟩
  | deviceSigned =>
    rw [Discloses, hsource]
    refine (h.device _ _ _).trans ⟨?_, fun hmem => ⟨e, hmem, hsource, rfl, rfl, rfl⟩⟩
    rintro ⟨e', hmem, hsource', hnameSpace, hid, -⟩
    rw [← eq_of_deviceSigned (hall e' hmem) he hsource' hsource hnameSpace hid]
    exact hmem

/-- The device-signed elements that the device key is not authorized for. -/
def findUnauthorizedDeviceSignedElements (deviceNamespaces : DeviceNamespaceItems V)
    (keyAuthorizations : Option KeyAuthorizations) : List ElementReference :=
  (deviceNamespaces.entries.flatMap fun n => n.2.entries.map fun item =>
    (n.1, item.1)).filter fun r =>
    !isDeviceSignedElementAuthorized keyAuthorizations r.1 r.2

/-- What a selection discloses. -/
structure DisclosesOnly (s : Selection V) (d : Disclosure V) : Prop where
  /-- The items are those of the credential, and each is disclosed once. -/
  issuerSigned : ∀ n, (issuerItems d n).Nodup ∧
    ∀ e ∈ issuerItems d n, e ∈ s.matchOptions.available ∧ e.source = .issuerSigned ∧ e.nameSpace = n
  /-- The values are those that were provided. -/
  deviceSigned : ∀ n id v, deviceValue d n id = some v →
    ∃ e ∈ s.matchOptions.available, e.source = .deviceSigned ∧
    e.nameSpace = n ∧ e.elementIdentifier = id ∧ e.elementValue = v
  /-- An element is disclosed exactly when it answers a requested element that is selected. -/
  answers : ∀ e ∈ s.matchOptions.available, Discloses d e ↔
    ∃ r, s.matchOptions.Requested r ∧ s.isSelected r = true ∧ s.Answers r e
  /-- Each requested element that is selected is answered in full, by itself or by all of an
  alternative set. -/
  answered : ∀ r, s.matchOptions.Requested r → s.isSelected r = true →
    ∃ answer, s.AnsweredBy r answer ∧ ∀ e ∈ answer, Discloses d e
  /-- No element is disclosed that would answer a requested element that is left out. -/
  declined : ∀ r e, s.Declines r e → ¬ Discloses d e
  authorized : findUnauthorizedDeviceSignedElements d.deviceNamespaces s.keyAuthorizations = []
  ageOver : findAgeOverLimitViolations (disclosedIdentifiers d).entries = []

theorem mem_deviceReferences {d : Disclosure V} {r : ElementReference}
    (h : r ∈ d.deviceNamespaces.entries.flatMap fun n =>
      n.2.entries.map fun item => (n.1, item.1)) :
    ∃ v, deviceValue d r.1 r.2 = some v := by
  obtain ⟨n, hn, hr⟩ := List.mem_flatMap.mp h
  obtain ⟨item, hitem, rfl⟩ := List.mem_map.mp hr
  refine ⟨item.2, ?_⟩
  rw [deviceValue, OrderedMap.get_eq_some.mpr
    (show (n.1, n.2) ∈ d.deviceNamespaces.entries from hn), Option.bind_some]
  exact OrderedMap.get_eq_some.mpr hitem

/-- A selection that succeeds discloses what answers the elements that are selected, and nothing
that is left out. -/
theorem selectElements_discloses {d : Disclosure V} (h : s.selectElements = .ok d) :
    s.DisclosesOnly d := by
  obtain ⟨elements, hholds, hageOver, hmem, hdeclined, hanswered⟩ := selectElements_eq_ok h
  have havailable : ∀ e ∈ elements, e ∈ s.matchOptions.available := by
    intro e he
    obtain ⟨r, -, -, hr⟩ := (hmem e).mp he
    exact hr.available.1
  have hdiscloses : ∀ {e}, e ∈ s.matchOptions.available → (Discloses d e ↔ e ∈ elements) :=
    fun he => hholds.discloses_iff havailable he
  refine ⟨fun n => ⟨hholds.once n, fun e he => ?_⟩, fun n id v hv => ?_,
    fun e he => (hdiscloses he).trans (hmem e), fun r hr hselected => ?_,
      fun r e hr hd => ?_, ?_, hageOver⟩
  · obtain ⟨he, hsource, hn⟩ := (hholds.issuer n e).mp he
    exact ⟨havailable e he, hsource, hn⟩
  · obtain ⟨e, he, hrest⟩ := (hholds.device n id v).mp hv
    exact ⟨e, havailable e he, hrest⟩
  · -- every element of the answer to a selected one is among those that are disclosed
    obtain ⟨answer, hby⟩ := hanswered r hr hselected
    refine ⟨answer, hby, fun e he => ?_⟩
    have hanswers := (hby.mem_iff e).mp he
    exact (hdiscloses hanswers.available.1).mpr ((hmem e).mpr ⟨r, hr, hselected, hanswers⟩)
  · have he := (MatchOptions.holderLookup_eq_some hr.2.2).1
    exact declinedFor_of_declines hr (hdeclined e ((hdiscloses he).mp hd))
  · -- the elements that are device-signed answer requested elements
    apply List.filter_eq_nil_iff.mpr
    intro r hr
    obtain ⟨v, hv⟩ := mem_deviceReferences hr
    obtain ⟨e, he, hsource, hn, hid, -⟩ := (hholds.device _ _ _).mp hv
    obtain ⟨r', -, -, hanswers⟩ := (hmem e).mp he
    have hauthorized := hanswers.available.2 hsource
    rw [MatchOptions.Authorized, hn, hid] at hauthorized
    rw [show s.keyAuthorizations = s.matchOptions.keyAuthorizations from rfl, hauthorized]
    exact Bool.false_ne_true

/-! ## An age and no name -/

/-- A request for an age and a name. -/
def exampleRequest : ItemsRequest where
  namespaces := OrderedMap.empty.set "org.iso.18013.5.1"
    ((OrderedMap.empty.set "age_over_18" false).set "family_name" true)

/-- The holder has an attestation for another age, and leaves out the name. -/
def exampleSelection : Selection Unit where
  docRequests := [(0, exampleRequest)]
  issuerSigned := OrderedMap.empty.set "org.iso.18013.5.1" [("family_name", .other ()),
    ("age_over_21", .bool true)]
  keyAuthorizations := none
  elements := some [("org.iso.18013.5.1", ["age_over_18"])]

theorem exists_exampleSelection : ∃ d, exampleSelection.selectElements = .ok d := by
  have h : exampleSelection.selectElements.isOk = true := by decide +kernel
  cases hresult : exampleSelection.selectElements with
  | ok d => exact ⟨d, rfl⟩
  | error e =>
    rw [hresult] at h
    cases h

theorem selectElements_discloses_example : ∃ d, exampleSelection.selectElements = .ok d ∧
    exampleSelection.DisclosesOnly d := by
  obtain ⟨d, h⟩ := exists_exampleSelection
  exact ⟨d, h, selectElements_discloses h⟩

end Selection

end IdentityCommon.Mdoc
