import IdentityCommon.Mdoc.Disclosure

/-!
# A response that is accepted

What a holder discloses answers the doc requests for a verifier too: an element that is looked up
among those that are disclosed is the one that the holder found in the credential.

## Main definitions

- `Selection.verifierOptions` — a doc request matched against the document of a response

## Main results

- `findElement_of_subset` — the element that answers a request answers it among fewer elements too
- `Selection.response_accepted` — the requested elements that are selected are answered, and every
  element that is disclosed is one that a doc request asked for
-/

namespace IdentityCommon.Mdoc

open IdentityCommon.Except

variable {V : Type}

/-! ## Age attestations -/

theorem parseAgeOverIdentifier_eq_some {id : DataElementIdentifier} {nn : ℕ}
    (h : parseAgeOverIdentifier id = some nn) :
    ∃ a b, id.toList = "age_over_".toList ++ [a, b] ∧ a.isDigit = true ∧ b.isDigit = true ∧
      nn = (a.toNat - 48) * 10 + (b.toNat - 48) := by
  unfold parseAgeOverIdentifier at h
  split at h
  case isFalse => cases h
  case isTrue hstart =>
    split at h
    case h_2 => cases h
    case h_1 a b hrest =>
      split at h
      case isFalse => cases h
      case isTrue hdigits =>
        refine ⟨a, b, ?_, hdigits.1, hdigits.2, (Option.some.inj h).symm⟩
        rw [← List.take_append_drop 9 id.toList, hstart, hrest]

theorem digit_bounds {c : Char} (h : c.isDigit = true) : 48 ≤ c.toNat ∧ c.toNat ≤ 57 := by
  rw [Char.isDigit, Bool.and_eq_true, decide_eq_true_eq, decide_eq_true_eq] at h
  exact ⟨h.1, h.2⟩

/-- An age has one identifier. -/
theorem eq_of_parseAgeOverIdentifier {id id' : DataElementIdentifier} {nn : ℕ}
    (h : parseAgeOverIdentifier id = some nn) (h' : parseAgeOverIdentifier id' = some nn) :
    id = id' := by
  obtain ⟨a, b, hid, ha, hb, hnn⟩ := parseAgeOverIdentifier_eq_some h
  obtain ⟨a', b', hid', ha', hb', hnn'⟩ := parseAgeOverIdentifier_eq_some h'
  have hdigits := digit_bounds ha
  have hdigits₁ := digit_bounds hb
  have hdigits₂ := digit_bounds ha'
  have hdigits₃ := digit_bounds hb'
  have hfirst : a.toNat = a'.toNat := by omega
  have hsecond : b.toNat = b'.toNat := by omega
  apply String.ext
  rw [hid, hid', Char.toNat_inj.mp hfirst, Char.toNat_inj.mp hsecond]

theorem le_of_head?_mergeSort {α : Type} {le : α → α → Bool}
    (htrans : ∀ a b c, le a b → le b c → le a c) (htotal : ∀ a b, le a b || le b a) {l : List α}
    {a b : α} (h : (l.mergeSort le).head? = some a) (hb : b ∈ l) :
    le a b = true := by
  have hsorted := List.pairwise_mergeSort htrans htotal l
  have hmem := (List.mergeSort_perm l le).mem_iff.mpr hb
  obtain ⟨rest, hrest⟩ := List.head?_eq_some_iff.mp h
  rw [hrest] at hmem hsorted
  rcases List.mem_cons.mp hmem with rfl | hlater
  · simpa using htotal b b
  · exact (List.pairwise_cons.mp hsorted).1 _ hlater

/-- The nearest attestation is nearer than the others. -/
theorem nearest_le {value : Bool} {fits : ℕ → Bool} {le : ℕ → ℕ → Bool}
    (htrans : ∀ a b c, le a b → le b c → le a c) (htotal : ∀ a b, le a b || le b a)
    {candidates : List (ElementCandidate V)} {e e' : ElementCandidate V} {nn mm : ℕ}
    (h : nearest value fits le candidates = some e)
    (hnn : parseAgeOverIdentifier e.elementIdentifier = some nn) (he' : e' ∈ candidates)
    (hvalue : e'.elementValue = .bool value)
    (hmm : parseAgeOverIdentifier e'.elementIdentifier = some mm) (hfits : fits mm = true) :
    le nn mm = true := by
  unfold nearest at h
  obtain ⟨⟨nn', e₀⟩, hhead, rfl⟩ := Option.map_eq_some_iff.mp h
  have hmem := head?_mergeSort.1 _ hhead
  have hsame : nn' = nn :=
    Option.some.inj ((mem_ageOverCandidates.mp (List.mem_of_mem_filter hmem)).2.symm.trans hnn)
  subst hsame
  have hle := @le_of_head?_mergeSort _ _ (fun a b c : ℕ × ElementCandidate V => htrans a.1 b.1 c.1)
    (fun a b => htotal a.1 b.1) _ _ (mm, e') hhead
  apply hle
  refine List.mem_filter.mpr ⟨mem_ageOverCandidates.mpr ⟨he', hmm⟩, ?_⟩
  simp only [hvalue, decide_true, Bool.true_and]
  exact hfits

/-! ## Fewer elements -/

/-- The identifier and the value of an element. -/
def ElementCandidate.says (e : ElementCandidate V) : DataElementIdentifier × DataElementValue V :=
  (e.elementIdentifier, e.elementValue)

/-- Elements that say what others do, where each identifier is there once. -/
structure Fewer (candidates' candidates : List (ElementCandidate V)) : Prop where
  subset : ∀ e' ∈ candidates', ∃ e ∈ candidates, e.says = e'.says
  once : ∀ e ∈ candidates, ∀ e' ∈ candidates, e.elementIdentifier = e'.elementIdentifier → e = e'

variable {candidates candidates' : List (ElementCandidate V)} {e : ElementCandidate V}

/-- The nearest attestation is the nearest among fewer ones. -/
theorem nearest_of_subset {value : Bool} {fits : ℕ → Bool} {le : ℕ → ℕ → Bool}
    (htrans : ∀ a b c, le a b → le b c → le a c) (htotal : ∀ a b, le a b || le b a)
    (hanti : ∀ a b, le a b → le b a → a = b) (hfewer : Fewer candidates' candidates)
    (h : nearest value fits le candidates = some e) (hin : ∃ e₀ ∈ candidates', e.says = e₀.says) :
    ∃ e', nearest value fits le candidates' = some e' ∧ e.says = e'.says := by
  obtain ⟨hmem, hvalue, mm, hmm, hfits⟩ := nearest_spec.1 e h
  obtain ⟨e₀, he₀, hsays⟩ := hin
  have hid₀ : e.elementIdentifier = e₀.elementIdentifier := congrArg Prod.fst hsays
  have hvalue₀ : e.elementValue = e₀.elementValue := congrArg Prod.snd hsays
  cases hresult : nearest value fits le candidates' with
  | none =>
    have hout := nearest_spec.2 hresult e₀ he₀ (hvalue₀ ▸ hvalue) mm (hid₀ ▸ hmm)
    rw [hfits] at hout
    cases hout
  | some e' =>
    obtain ⟨hmem', hvalue', mm', hmm', hfits'⟩ := nearest_spec.1 e' hresult
    obtain ⟨e₁, he₁, hsays₁⟩ := hfewer.subset e' hmem'
    have hid₁ : e₁.elementIdentifier = e'.elementIdentifier := congrArg Prod.fst hsays₁
    have hvalue₁ : e₁.elementValue = e'.elementValue := congrArg Prod.snd hsays₁
    -- each of the two is as near as the other
    have hle := nearest_le htrans htotal h hmm he₁ (hvalue₁.trans hvalue') (hid₁ ▸ hmm') hfits'
    have hle' := nearest_le htrans htotal hresult hmm' he₀ (hvalue₀ ▸ hvalue) (hid₀ ▸ hmm) hfits
    obtain rfl := hanti mm mm' hle hle'
    have hsame := hfewer.once e hmem e₁ he₁ (eq_of_parseAgeOverIdentifier hmm (hid₁ ▸ hmm'))
    exact ⟨e', rfl, hsame ▸ hsays₁⟩

theorem nearest_eq_none_of_subset {value : Bool} {fits : ℕ → Bool} {le : ℕ → ℕ → Bool}
    (hfewer : Fewer candidates' candidates) (h : nearest value fits le candidates = none) :
    nearest value fits le candidates' = none := by
  by_contra hsome
  obtain ⟨e', he'⟩ := Option.ne_none_iff_exists'.mp hsome
  obtain ⟨hmem, hvalue, mm, hmm, hfits⟩ := nearest_spec.1 e' he'
  obtain ⟨e, he, hsays⟩ := hfewer.subset e' hmem
  have hid : e.elementIdentifier = e'.elementIdentifier := congrArg Prod.fst hsays
  have hsame : e.elementValue = e'.elementValue := congrArg Prod.snd hsays
  have hout := nearest_spec.2 h e he (hsame.trans hvalue) mm (hid ▸ hmm)
  rw [hfits] at hout
  cases hout

theorem findAgeOverCandidate_of_subset {id : DataElementIdentifier}
    (hfewer : Fewer candidates' candidates) (h : findAgeOverCandidate id candidates = some e)
    (hin : ∃ e₀ ∈ candidates', e.says = e₀.says) :
    ∃ e', findAgeOverCandidate id candidates' = some e' ∧ e.says = e'.says := by
  unfold findAgeOverCandidate at h ⊢
  cases hparse : parseAgeOverIdentifier id with
  | none =>
    rw [hparse] at h
    cases h
  | some nn =>
    rw [hparse] at h
    dsimp only at h ⊢
    rcases Option.or_eq_some_iff.mp h with htrue | ⟨hnone, hfalse⟩
    · obtain ⟨e', he', hsays⟩ := nearest_of_subset (by simp only [decide_eq_true_eq]; omega)
        (by simp only [Bool.or_eq_true, decide_eq_true_eq]; omega)
          (by simp only [decide_eq_true_eq]; omega) hfewer htrue hin
      exact ⟨e', by rw [nearestTrue, he', Option.some_or], hsays⟩
    · obtain ⟨e', he', hsays⟩ := nearest_of_subset (by simp only [decide_eq_true_eq]; omega)
        (by simp only [Bool.or_eq_true, decide_eq_true_eq]; omega)
          (by simp only [decide_eq_true_eq]; omega) hfewer hfalse hin
      exact ⟨e', by rw [nearestTrue, nearest_eq_none_of_subset hfewer hnone, Option.none_or,
        nearestFalse, he'], hsays⟩

/-- The element that answers a request answers it among fewer elements, as long as it is among
them. -/
theorem findElement_of_subset {id : DataElementIdentifier} (hfewer : Fewer candidates' candidates)
    (h : findElement id candidates = some e) (hin : ∃ e₀ ∈ candidates', e.says = e₀.says) :
    ∃ e', findElement id candidates' = some e' ∧ e.says = e'.says := by
  obtain ⟨e₀, he₀, hsays⟩ := hin
  rcases Option.or_eq_some_iff.mp h with hfound | ⟨hnone, hage⟩
  · have hid : e.elementIdentifier = id := of_decide_eq_true
      (List.find?_some (p := fun candidate : ElementCandidate V =>
        candidate.elementIdentifier = id) hfound)
    have hid₀ : e₀.elementIdentifier = id := (congrArg Prod.fst hsays).symm.trans hid
    obtain ⟨e', he'⟩ : ∃ e', candidates'.find? (fun candidate => candidate.elementIdentifier = id) =
        some e' :=
      Option.isSome_iff_exists.mp (List.find?_isSome.mpr ⟨e₀, he₀, decide_eq_true hid₀⟩)
    have hid' : e'.elementIdentifier = id := of_decide_eq_true
      (List.find?_some (p := fun candidate : ElementCandidate V =>
        candidate.elementIdentifier = id) he')
    obtain ⟨e₁, he₁, hsays₁⟩ := hfewer.subset e' (List.mem_of_find?_eq_some he')
    have hsame := hfewer.once e (List.mem_of_find?_eq_some hfound) e₁ he₁
      (hid.trans (hid'.symm.trans (congrArg Prod.fst hsays₁).symm))
    exact ⟨e', by rw [findElement, he', Option.some_or], hsame ▸ hsays₁⟩
  · obtain ⟨e', he', hsays'⟩ := findAgeOverCandidate_of_subset hfewer hage ⟨e₀, he₀, hsays⟩
    refine ⟨e', ?_, hsays'⟩
    have hnone' : candidates'.find? (fun candidate => candidate.elementIdentifier = id) = none := by
      rw [List.find?_eq_none] at hnone ⊢
      intro x hx hid
      obtain ⟨e₁, he₁, hsays₁⟩ := hfewer.subset x hx
      have hid₁ : e₁.elementIdentifier = x.elementIdentifier := congrArg Prod.fst hsays₁
      exact hnone e₁ he₁ (decide_eq_true (hid₁.trans (of_decide_eq_true hid)))
    rw [findElement, hnone', Option.none_or, he']

theorem answersTo_of_same {id : DataElementIdentifier} {e' : ElementCandidate V}
    (h : e.says = e'.says) (hanswers : AnswersTo id e) :
    AnswersTo id e' := by
  have hid : e.elementIdentifier = e'.elementIdentifier := congrArg Prod.fst h
  have hvalue : e.elementValue = e'.elementValue := congrArg Prod.snd h
  rw [AnswersTo, AgeSubstitute, hid, hvalue] at hanswers
  exact hanswers

theorem findElement_eq_none_of_subset {id : DataElementIdentifier}
    (hfewer : Fewer candidates' candidates) (h : findElement id candidates = none) :
    findElement id candidates' = none := by
  apply findElement_eq_none.mpr
  intro e' he' hanswers
  obtain ⟨e, he, hsays⟩ := hfewer.subset e' he'
  exact findElement_eq_none.mp h e he (answersTo_of_same hsays.symm hanswers)

namespace Selection

variable {s : Selection V} {d : Disclosure V} {elements : List (ElementCandidate V)}

/-! ## The document of a response -/

/-- The issuer-signed items of a document. -/
def documentItems (d : Disclosure V) : IssuerNamespaceItems V :=
  d.issuerNamespaces.mapVal fun items => items.map ElementCandidate.says

/-- A doc request matched against the document of a response, with options for its elements. -/
def verifierOptions (s : Selection V) (d : Disclosure V)
    (options : List (Namespace × List (DataElementIdentifier × ElementMatchOptions)))
    (request : ItemsRequest) : MatchOptions V where
  mode := .verifier
  namespaces := request.namespaces
  elements := options
  issuerSigned := documentItems d
  keyAuthorizations := s.keyAuthorizations
  deviceNamespaces := d.deviceNamespaces
  alternatives := request.alternativeDataElements

/-- No issuer-signed namespace has an identifier twice. -/
def DistinctItems (issuerSigned : IssuerNamespaceItems V) : Prop :=
  ∀ n ∈ issuerSigned.entries, (n.2.map Prod.fst).Nodup

theorem nodup_names {issuerSigned : IssuerNamespaceItems V} (h : DistinctItems issuerSigned)
    (deviceNamespaces : DeviceNamespaceItems V) (source : DisclosedElementSource) :
    (names (contentsOf source issuerSigned deviceNamespaces)).Nodup := by
  cases source with
  | issuerSigned =>
    have hpairs := nodup_pairs
      (fun items : List (DataElementIdentifier × DataElementValue V) => items) issuerSigned h
    show (names (issuerContents issuerSigned)).Nodup
    rw [names, issuerContents, List.map_flatMap]
    simp only [List.map_map]
    exact hpairs
  | deviceSigned => exact nodup_deviceNames deviceNamespaces

/-- The document has the contents of the elements that are disclosed. -/
theorem mem_document (h : Holds d elements) {c : Content V} :
    (∃ e ∈ collectElements (documentItems d) d.deviceNamespaces, e.content = c) ↔
      ∃ e ∈ elements, e.content = c := by
  have hget : ∀ n, (documentItems d).get n = (d.issuerNamespaces.get n).map fun items =>
      items.map ElementCandidate.says :=
    fun n => OrderedMap.get_mapVal _ _ _
  rw [← List.mem_map, content_collectElements, List.mem_append, mem_issuerContents,
    mem_deviceContents]
  constructor
  · rintro (⟨n, items, item, hitems, hitem, rfl⟩ | ⟨n, items, id, v, hitems, hv, rfl⟩)
    · rw [hget] at hitems
      obtain ⟨disclosed, hdisclosed, rfl⟩ := Option.map_eq_some_iff.mp hitems
      obtain ⟨e, he, rfl⟩ := List.mem_map.mp hitem
      have hmem : e ∈ issuerItems d n := by rwa [issuerItems, hdisclosed]
      obtain ⟨he, hsource, hn⟩ := (h.issuer n e).mp hmem
      exact ⟨e, he, by rw [ElementCandidate.content, hsource, hn]; rfl⟩
    · have hvalue : deviceValue d n id = some v := by rw [deviceValue, hitems, Option.bind_some, hv]
      obtain ⟨e, he, hsource, hn, hid, hv⟩ := (h.device n id v).mp hvalue
      exact ⟨e, he, by rw [ElementCandidate.content, hsource, hn, hid, hv]⟩
  · rintro ⟨e, he, rfl⟩
    cases hsource : e.source with
    | issuerSigned =>
      left
      have hmem := (h.issuer e.nameSpace e).mpr ⟨he, hsource, rfl⟩
      rw [issuerItems] at hmem
      cases hitems : d.issuerNamespaces.get e.nameSpace with
      | none =>
        rw [hitems] at hmem
        cases hmem
      | some items =>
        rw [hitems] at hmem
        refine ⟨e.nameSpace, items.map ElementCandidate.says, e.says, by rw [hget, hitems]; rfl,
          List.mem_map_of_mem hmem, ?_⟩
        rw [ElementCandidate.content, hsource]
        rfl
    | deviceSigned =>
      right
      have hvalue := (h.device e.nameSpace e.elementIdentifier e.elementValue).mpr
        ⟨e, he, hsource, rfl, rfl, rfl⟩
      obtain ⟨items, hitems, hv⟩ := Option.bind_eq_some_iff.mp hvalue
      exact ⟨_, items, _, _, hitems, hv, by rw [ElementCandidate.content, hsource]⟩

/-- An identifier is in the document once in a namespace of a source. -/
theorem distinct_document (h : Holds d elements)
    (hall : ∀ e ∈ elements, e ∈ s.matchOptions.available)
    (hdistinct : DistinctItems s.issuerSigned) : DistinctItems (documentItems d) := by
  intro n hn
  obtain ⟨entry, hentry, rfl⟩ := List.mem_map.mp hn
  have hitems : issuerItems d entry.1 = entry.2 := by
    rw [issuerItems, OrderedMap.get_eq_some.mpr (show (entry.1, entry.2) ∈ _ from hentry),
      Option.getD_some]
  have hmem : ∀ e ∈ entry.2, e ∈ s.matchOptions.available ∧ e.source = .issuerSigned ∧
      e.nameSpace = entry.1 := by
    intro e he
    obtain ⟨he, hrest⟩ := (h.issuer entry.1 e).mp (hitems ▸ he)
    exact ⟨hall e he, hrest⟩
  have hnodup : entry.2.Nodup := hitems ▸ h.once entry.1
  dsimp only
  rw [List.map_map]
  apply List.Nodup.map_on _ hnodup
  intro e he e' he' hid
  obtain ⟨havailable, hsource, hn⟩ := hmem e he
  obtain ⟨havailable', hsource', hn'⟩ := hmem e' he'
  exact eq_of_name (nodup_names hdistinct _ _) havailable havailable' (hsource.trans hsource'.symm)
    (hn.trans hn'.symm) hid

/-! ## Lookups -/

/-- The elements that are disclosed, in the credential and in the document. -/
structure Responds (s : Selection V) (d : Disclosure V) (elements : List (ElementCandidate V)) :
    Prop where
  holds : Holds d elements
  available : ∀ e ∈ elements, e ∈ s.matchOptions.available
  distinct : DistinctItems s.issuerSigned

variable {options : List (Namespace × List (DataElementIdentifier × ElementMatchOptions))}
    {request : ItemsRequest}

/-- An element of the document is one that was disclosed. -/
theorem Responds.exists_of_mem (h : Responds s d elements) {e' : ElementCandidate V}
    (he' : e' ∈ (s.verifierOptions d options request).available) :
    ∃ e ∈ elements, e.content = e'.content :=
  (mem_document h.holds).mp ⟨e', he', rfl⟩

theorem Responds.mem_of_disclosed (h : Responds s d elements) {e : ElementCandidate V}
    (he : e ∈ elements) :
    ∃ e' ∈ (s.verifierOptions d options request).available, e'.content = e.content :=
  (mem_document h.holds).mpr ⟨e, he, rfl⟩

theorem content_eq {e e' : ElementCandidate V} (h : e.content = e'.content) :
    e.source = e'.source ∧ e.nameSpace = e'.nameSpace ∧ e.says = e'.says :=
  ⟨congrArg Prod.fst h, congrArg (·.2.1) h, congrArg (·.2.2) h⟩

theorem Responds.eq_of_content (h : Responds s d elements) {e e' : ElementCandidate V}
    (he : e ∈ (s.verifierOptions d options request).available)
    (he' : e' ∈ (s.verifierOptions d options request).available)
    (hcontent : e.content = e'.content) : e = e' := by
  obtain ⟨hsource, hn, hsays⟩ := content_eq hcontent
  exact eq_of_name (nodup_names (distinct_document h.holds h.available h.distinct) _ _) he he'
    hsource hn (congrArg Prod.fst hsays)

/-- The document has fewer elements of a source than the credential. -/
theorem Responds.fewer (h : Responds s d elements) (n : Namespace)
    (source : DisclosedElementSource) :
    Fewer ((s.verifierOptions d options request).inNamespace n source)
      (s.matchOptions.inNamespace n source) := by
  refine ⟨fun e' he' => ?_, fun e he e' he' hid => ?_⟩
  · obtain ⟨havailable, hn, hsource⟩ := MatchOptions.mem_inNamespace.mp he'
    obtain ⟨e, he, hcontent⟩ := h.exists_of_mem havailable
    obtain ⟨hsource', hn', hsays⟩ := content_eq hcontent
    exact ⟨e, MatchOptions.mem_inNamespace.mpr ⟨h.available e he, hn'.trans hn,
      hsource'.trans hsource⟩, hsays⟩
  · obtain ⟨havailable, hn, hsource⟩ := MatchOptions.mem_inNamespace.mp he
    obtain ⟨havailable', hn', hsource'⟩ := MatchOptions.mem_inNamespace.mp he'
    exact eq_of_name (nodup_names h.distinct _ _) havailable havailable'
      (hsource.trans hsource'.symm) (hn.trans hn'.symm) hid

/-- A verifier finds the element that a holder has found and disclosed. -/
theorem Responds.lookup (h : Responds s d elements) {r : ElementReference}
    (hsource : (s.verifierOptions d options request).sourceOf r.1 r.2 = .any)
    {e : ElementCandidate V} (hlookup : s.matchOptions.holderLookup r.1 r.2 = some e)
    (he : e ∈ elements) :
    ∃ e', (s.verifierOptions d options request).verifierLookup r.1 r.2 = some e' ∧
    e.content = e'.content := by
  have hdocument : ∃ e' ∈ (s.verifierOptions d options request).available, e'.content = e.content :=
    h.mem_of_disclosed he
  obtain ⟨e₀, he₀, hcontent₀⟩ := hdocument
  obtain ⟨hsource₀, hn₀, hsays₀⟩ := content_eq hcontent₀
  have hverifier : (s.verifierOptions d options request).verifierLookup r.1 r.2 =
      (findElement r.2 ((s.verifierOptions d options request).inNamespace r.1 .issuerSigned)).or
        (findElement r.2 ((s.verifierOptions d options request).authorizedDeviceSigned r.1)) := by
    rw [MatchOptions.verifierLookup, hsource]
  rcases Option.or_eq_some_iff.mp hlookup with hissuer | ⟨hnone, hdevice⟩
  · obtain ⟨-, hn, hissuerSigned⟩ := MatchOptions.mem_inNamespace.mp (findElement_eq_some hissuer).1
    have hin : ∃ e₀ ∈ (s.verifierOptions d options request).inNamespace r.1 .issuerSigned,
        e.says = e₀.says :=
      ⟨e₀, MatchOptions.mem_inNamespace.mpr ⟨he₀, hn₀.trans hn, hsource₀.trans hissuerSigned⟩,
        hsays₀.symm⟩
    obtain ⟨e', he', hsays⟩ := findElement_of_subset (h.fewer r.1 .issuerSigned) hissuer hin
    obtain ⟨-, hn', hissuerSigned'⟩ := MatchOptions.mem_inNamespace.mp (findElement_eq_some he').1
    refine ⟨e', by rw [hverifier, he', Option.some_or], ?_⟩
    exact Prod.ext (hissuerSigned.trans hissuerSigned'.symm) (Prod.ext (hn.trans hn'.symm) hsays)
  · -- no issuer-signed element answers, in the document either
    have hnone' : findElement r.2
        ((s.verifierOptions d options request).inNamespace r.1 .issuerSigned) = none :=
      findElement_eq_none_of_subset (h.fewer r.1 .issuerSigned) hnone
    obtain ⟨-, hn, hdeviceSigned, hauthorized⟩ :=
      MatchOptions.mem_authorizedDeviceSigned.mp (List.mem_of_find?_eq_some hdevice)
    have hid : e.elementIdentifier = r.2 := of_decide_eq_true
      (List.find?_some (p := fun candidate : ElementCandidate V =>
        candidate.elementIdentifier = r.2) hdevice)
    have hid₀ : e₀.elementIdentifier = r.2 := (congrArg Prod.fst hsays₀).trans hid
    have hin : e₀ ∈ (s.verifierOptions d options request).authorizedDeviceSigned r.1 := by
      apply MatchOptions.mem_authorizedDeviceSigned.mpr
      refine ⟨he₀, hn₀.trans hn, hsource₀.trans hdeviceSigned, ?_⟩
      rw [hn₀, hid₀, ← hid]
      exact hauthorized
    obtain ⟨e', he'⟩ : ∃ e',
        ((s.verifierOptions d options request).authorizedDeviceSigned r.1).find?
        (fun candidate => candidate.elementIdentifier = r.2) = some e' :=
      Option.isSome_iff_exists.mp (List.find?_isSome.mpr ⟨e₀, hin, decide_eq_true hid₀⟩)
    have hid' : e'.elementIdentifier = r.2 := of_decide_eq_true
      (List.find?_some (p := fun candidate : ElementCandidate V =>
        candidate.elementIdentifier = r.2) he')
    obtain ⟨havailable', hn', hdeviceSigned', -⟩ :=
      MatchOptions.mem_authorizedDeviceSigned.mp (List.mem_of_find?_eq_some he')
    have hsame : e₀ = e' :=
      eq_of_deviceSigned he₀ havailable' (hsource₀.trans hdeviceSigned) hdeviceSigned'
      (hn₀.trans (hn.trans hn'.symm)) (hid₀.trans hid'.symm)
    refine ⟨e', ?_, hsame ▸ hcontent₀.symm⟩
    rw [hverifier, hnone', Option.none_or, findElement, he', Option.some_or]

/-! ## The verifier's match -/

theorem requested_iff_has {o : MatchOptions V} {r : ElementReference} :
    o.Requested r ↔ has o.namespaces r = true :=
  MatchOptions.requested_iff

theorem requested_of_docRequest (hrequest : request ∈ s.docRequests.map Prod.snd)
    {r : ElementReference} (hr : (s.verifierOptions d options request).Requested r) :
    s.matchOptions.Requested r := by
  obtain ⟨docRequest, hmem, rfl⟩ := List.mem_map.mp hrequest
  exact requested_iff_has.mpr (has_mergeNamespaces.mpr ⟨docRequest, hmem, requested_iff_has.mp hr⟩)

/-- The alternatives of an element that are chosen from are those of each doc request that requests
it. -/
theorem alternatives_of_docRequest (hrequest : request ∈ s.docRequests.map Prod.snd)
    {r : ElementReference} (hr : (s.verifierOptions d options request).Requested r)
    {a : AlternativeDataElementsSet}
    (ha : s.matchOptions.alternatives.find? (fun a => a.requestedElement = r) = some a) :
    ∃ a', request.alternativeDataElements.find? (fun a => a.requestedElement = r) = some a' ∧
      a'.alternativeElementSets = a.alternativeElementSets := by
  obtain ⟨docRequest, hmem, rfl⟩ := List.mem_map.mp hrequest
  exact (mergeAlternatives_eq_inl (find?_alternativesOfAll ha)).2 docRequest hmem
    (requested_iff_has.mp hr)

/-- A requested element that is selected is answered for the verifier. -/
theorem Responds.isSuccess (h : Responds s d elements)
    (hrequest : request ∈ s.docRequests.map Prod.snd)
    (hany : ∀ r, (s.verifierOptions d options request).AskedFor r →
      (s.verifierOptions d options request).sourceOf r.1 r.2 = .any) {r : ElementReference}
      {retain : Bool}
    (hr : (r.1, r.2, retain) ∈ (s.verifierOptions d options request).requestedElements)
    {answer : List (ElementCandidate V)} (hby : s.AnsweredBy r answer)
    (hall : ∀ e ∈ answer, e ∈ elements) :
    ((s.verifierOptions d options request).verifierClaim (r.1, r.2, retain)).1.isSuccess =
      true := by
  have hrequested : (s.verifierOptions d options request).Requested r := ⟨retain, hr⟩
  apply (MatchOptions.isSuccess_verifierClaim rfl).mpr
  cases hby with
  | itself _ hlookup =>
    left
    obtain ⟨e', he', -⟩ :=
      h.lookup (hany r (.inl hrequested)) hlookup (hall _ (List.mem_singleton_self _))
    exact MatchOptions.isSome_verifierLookup.mp ⟨e', he'⟩
  | @alternative index a set _ _ ha hset _ hforall =>
    right
    obtain ⟨a', ha', hsets⟩ := alternatives_of_docRequest hrequest hrequested ha
    obtain ⟨hmem, heq⟩ := alternativesOf_eq_some ha'
    have hin : set ∈ a'.alternativeElementSets := hsets ▸ List.mem_of_getElem? hset
    refine ⟨a', ha', set, hin, fun m hm => ?_⟩
    obtain ⟨e, he, hlookup⟩ := exists_of_forall₂ hforall hm
    have hasked : (s.verifierOptions d options request).AskedFor m :=
      .inr ⟨a', hmem, heq ▸ hrequested, set, hin, hm⟩
    obtain ⟨e', he', -⟩ := h.lookup (hany m hasked) hlookup (hall e he)
    exact MatchOptions.isSome_verifierLookup.mp ⟨e', he'⟩

/-- An element that was disclosed for a requested one is used for it. -/
theorem Responds.used (h : Responds s d elements) (hrequest : request ∈ s.docRequests.map Prod.snd)
    (hany : ∀ r, (s.verifierOptions d options request).AskedFor r →
      (s.verifierOptions d options request).sourceOf r.1 r.2 = .any) {r : ElementReference}
    (hr : (s.verifierOptions d options request).Requested r) {e e' : ElementCandidate V}
    (hanswers : s.Answers r e) (he : e ∈ elements)
    (he' : e' ∈ (s.verifierOptions d options request).available)
    (hcontent : e.content = e'.content) :
    (s.verifierOptions d options request).FoundFor e' := by
  have hfound : ∀ m, (s.verifierOptions d options request).AskedFor m →
      s.matchOptions.holderLookup m.1 m.2 = some e →
      (s.verifierOptions d options request).FoundFor e' := by
    intro m hm hlookup
    obtain ⟨e₁, he₁, hcontent₁⟩ := h.lookup (hany m hm) hlookup he
    have havailable : e₁ ∈ (s.verifierOptions d options request).available :=
      (MatchOptions.verifierLookup_eq_some he₁).1.available
    have hsame : e₁ = e' := h.eq_of_content havailable he' (hcontent₁.symm.trans hcontent)
    exact .inl ⟨m, hm, hsame ▸ he₁⟩
  cases hanswers with
  | itself _ hlookup => exact hfound r (.inl hr) hlookup
  | @alternative index a set m _ ha hset hm hlookup =>
    obtain ⟨a', ha', hsets⟩ := alternatives_of_docRequest hrequest hr ha
    obtain ⟨hmem, heq⟩ := alternativesOf_eq_some ha'
    exact hfound m (.inr ⟨a', hmem, heq ▸ hr, set, hsets ▸ List.mem_of_getElem? hset, hm⟩) hlookup

/-- What a holder discloses is accepted: for every doc request that the document answers, a verifier
that allows both sources finds an answer to each requested element that was selected, and each
element of the document is one that a doc request asked for. -/
theorem response_accepted (hdistinct : DistinctItems s.issuerSigned) (h : s.selectElements = .ok d)
    (optionsOf : ItemsRequest →
      List (Namespace × List (DataElementIdentifier × ElementMatchOptions)))
    (hany : ∀ request ∈ s.docRequests.map Prod.snd, ∀ r,
      (s.verifierOptions d (optionsOf request) request).AskedFor r →
      (s.verifierOptions d (optionsOf request) request).sourceOf r.1 r.2 = .any) :
    (∀ request ∈ s.docRequests.map Prod.snd, ∀ claim ∈
      (matchElements (s.verifierOptions d (optionsOf request) request)).1,
        s.isSelected (referenceOf claim.claim) = true → claim.isSuccess = true) ∧
    ∀ e ∈ collectElements (documentItems d) d.deviceNamespaces,
    ∃ request ∈ s.docRequests.map Prod.snd,
      e ∉ (matchElements (s.verifierOptions d (optionsOf request) request)).2 := by
  obtain ⟨elements, hholds, -, hmem, -, hanswered⟩ := selectElements_eq_ok h
  have hresponds : Responds s d elements := by
    refine ⟨hholds, fun e he => ?_, hdistinct⟩
    obtain ⟨r, -, -, hanswers⟩ := (hmem e).mp he
    exact hanswers.available.1
  constructor
  · intro request hrequest claim hclaim hselected
    have hclaims : (matchElements (s.verifierOptions d (optionsOf request) request)).1 =
        (s.verifierOptions d (optionsOf request) request).requestedElements.map fun r =>
          ((s.verifierOptions d (optionsOf request) request).verifierClaim r).1 := List.map_map
    rw [hclaims] at hclaim
    obtain ⟨r, hr, rfl⟩ := List.mem_map.mp hclaim
    obtain ⟨hnameSpace, hid⟩ :=
      MatchOptions.claim_verifierClaim
        (o := s.verifierOptions d (optionsOf request) request) (r := r)
    rw [referenceOf, hnameSpace, hid] at hselected
    have hrequested : s.matchOptions.Requested (r.1, r.2.1) :=
      requested_of_docRequest hrequest ⟨r.2.2, hr⟩
    obtain ⟨answer, hby⟩ := hanswered _ hrequested hselected
    exact hresponds.isSuccess (r := (r.1, r.2.1)) hrequest
        (hany request hrequest) hr hby fun e he =>
      (hmem e).mpr ⟨_, hrequested, hselected, (hby.mem_iff e).mp he⟩
  · intro e' he'
    obtain ⟨e, he, hcontent⟩ := (mem_document hholds).mp ⟨e', he', rfl⟩
    obtain ⟨r, hr, -, hanswers⟩ := (hmem e).mp he
    -- the doc request that requests it
    obtain ⟨docRequest, hdocRequest, hhas⟩ := has_mergeNamespaces.mp (requested_iff_has.mp hr)
    have hrequest : docRequest.2 ∈ s.docRequests.map Prod.snd := List.mem_map_of_mem hdocRequest
    refine ⟨docRequest.2, hrequest, fun hunused => ?_⟩
    have hused := hresponds.used hrequest (hany _ hrequest)
      (requested_iff_has.mpr hhas) hanswers he he' hcontent
    exact ((MatchOptions.mem_matchElements rfl).mp hunused).2 hused

theorem response_accepted_example : ∃ d, exampleSelection.selectElements = .ok d ∧
    ∀ e ∈ collectElements (documentItems d) d.deviceNamespaces,
    ∃ request ∈ exampleSelection.docRequests.map Prod.snd,
      e ∉ (matchElements (exampleSelection.verifierOptions d
        [("org.iso.18013.5.1", [("*", { source := some .any })])] request)).2 := by
  obtain ⟨d, h⟩ := exists_exampleSelection
  have hdistinct : DistinctItems exampleSelection.issuerSigned := by
    intro n hn
    obtain rfl := List.mem_singleton.mp hn
    decide
  refine ⟨d, h, (response_accepted hdistinct h
    (fun _ => [("org.iso.18013.5.1", [("*", { source := some .any })])])
    fun request hrequest r hasked => ?_).2⟩
  obtain rfl := List.mem_singleton.mp hrequest
  rcases hasked with ⟨retain, hr⟩ | ⟨a, ha, -⟩
  · have hmem : (r.1, r.2, retain) ∈ [("org.iso.18013.5.1", "age_over_18", false),
      ("org.iso.18013.5.1", "family_name", true)] := hr
    rcases List.mem_cons.mp hmem with heq | hmem
    · obtain ⟨hn, hid, -⟩ : r.1 = "org.iso.18013.5.1" ∧ r.2 = "age_over_18" ∧ retain = false := by
        simpa using heq
      rw [hn, hid]
      rfl
    · obtain ⟨hn, hid, -⟩ : r.1 = "org.iso.18013.5.1" ∧ r.2 = "family_name" ∧ retain = true := by
        simpa using hmem
      rw [hn, hid]
      rfl
  · cases ha

end Selection

end IdentityCommon.Mdoc
