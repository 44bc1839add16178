import Mathlib.Data.List.Find
import Mathlib.Data.List.Forall2
import Mathlib.Data.List.ReduceOption
import IdentityCommon.Mdoc.MatchElements

/-!
# Over-disclosure

Which elements of a document a verifier reports as not requested, and which requested elements it
takes for answered.

## Main definitions

- `AskedFor`, `Disclosed`, `CompleteAlternative` — what a doc request asks for, and what answers it
- `Accounts` — what the report is meant to be
- `OnlyFound` — no element that is asked for is disclosed beside those that are accepted

## Main results

- `mem_usedElements` — the elements that a match marks as used
- `foundFor_iff` — which of the disclosed elements are found
- `accounts_iff` — the report is as it is meant to be exactly when no element that is asked for is
  disclosed beside those that are accepted

## Design notes

An element that is asked for can be disclosed twice, from both sources, or only from a source that
is not allowed while an alternative set answers. The match does not mark it then.
-/

namespace IdentityCommon.Mdoc

namespace MatchOptions

variable {V : Type} (o : MatchOptions V)

/-! ## What a doc request asks for -/

/-- A member of an alternative set of a requested element. -/
def IsAlternative (r : ElementReference) : Prop :=
  ∃ a ∈ o.alternatives, o.Requested a.requestedElement ∧ ∃ set ∈ a.alternativeElementSets, r ∈ set

def AskedFor (r : ElementReference) : Prop := o.Requested r ∨ o.IsAlternative r

def Authorized (e : ElementCandidate V) : Prop :=
  isDeviceSignedElementAuthorized o.keyAuthorizations e.nameSpace e.elementIdentifier = true

/-- An element in a namespace, from a source that the options of a request allow. -/
structure AllowedFrom (r : ElementReference) (e : ElementCandidate V) : Prop where
  available : e ∈ o.available
  nameSpace : e.nameSpace = r.1
  issuerSigned : e.source = .issuerSigned → o.sourceOf r.1 r.2 ≠ .deviceSigned
  deviceSigned : e.source = .deviceSigned → o.sourceOf r.1 r.2 ≠ .issuerSigned ∧ o.Authorized e

/-- The element is there, or an age attestation that answers in its place. -/
def Disclosed (r : ElementReference) : Prop := ∃ e, o.AllowedFrom r e ∧ AnswersTo r.2 e

/-- Every element of an alternative set of an element is there. -/
def CompleteAlternative (r : ElementReference) : Prop :=
  ∃ a ∈ o.alternatives, a.requestedElement = r ∧
  ∃ set ∈ a.alternativeElementSets, ∀ m ∈ set, o.Disclosed m

/-- The first list of alternative sets for an element has a set whose elements are all there. -/
def FirstComplete (r : ElementReference) : Prop :=
  ∃ a, o.alternatives.find? (fun a => a.requestedElement = r) = some a ∧
    ∃ set ∈ a.alternativeElementSets, ∀ m ∈ set, o.Disclosed m

/-- A requested element that nothing answers. -/
structure Unanswered (r : ElementReference) : Prop where
  requested : o.Requested r
  not_disclosed : ¬o.Disclosed r
  not_complete : ¬o.FirstComplete r

/-- An age attestation that is used for an age that is asked for: it is looked up in place of the
element, or it is reported with the failure of a requested element that nothing answers. -/
def AttestsAge (e : ElementCandidate V) : Prop :=
  ∃ r, o.AskedFor r ∧ e.elementIdentifier ≠ r.2 ∧ (o.verifierLookup r.1 r.2 = some e ∨
    o.Unanswered r ∧ (o.unauthorized r.1 r.2 = some e ∨ o.disallowed r.1 r.2 = some e))

/-- The claim of a requested element: it is answered by itself or by an alternative set, and never
device-signed without authorization. -/
structure Answered (r : Namespace × DataElementIdentifier × Bool)
    (claim : ElementMatch V) : Prop where
  nameSpace : claim.claim.nameSpace = r.1
  elementIdentifier : claim.claim.elementIdentifier = r.2.1
  isSuccess : claim.isSuccess = true ↔ o.Disclosed (r.1, r.2.1) ∨ o.CompleteAlternative (r.1, r.2.1)
  authorized : ∀ option ∈ claim.options, ∀ e ∈ option.elements, e.source =
    .deviceSigned → o.Authorized e

/-- What a match of a verifier is meant to report. -/
structure Accounts : Prop where
  not_askedFor : ∀ e ∈ (matchElements o).2, ¬o.AskedFor (e.nameSpace, e.elementIdentifier)
  reported : ∀ e ∈ o.available, ¬o.AskedFor (e.nameSpace, e.elementIdentifier) → ¬o.AttestsAge e →
    e ∈ (matchElements o).2
  once : (matchElements o).2.Sublist o.available ∧
    ((matchElements o).2.map ElementCandidate.position).Nodup
  claims : List.Forall₂ o.Answered o.requestedElements (matchElements o).1

/-! ## The condition -/

/-- The first of the elements of its source with its identifier. -/
def IsFirst (e : ElementCandidate V) : Prop :=
  (o.inNamespace e.nameSpace e.source).find? (fun candidate => candidate.elementIdentifier =
    e.elementIdentifier) = some e

/-- The options of an element accept it from its source: issuer-signed, or device-signed with
authorization, where it does not come after an issuer-signed element that answers as well. -/
inductive Accepted (e : ElementCandidate V) : Prop
  | issuerSigned : e.source = .issuerSigned →
      o.sourceOf e.nameSpace e.elementIdentifier ≠ .deviceSigned → Accepted e
  | deviceSigned : e.source = .deviceSigned → o.Authorized e →
      o.sourceOf e.nameSpace e.elementIdentifier ≠ .issuerSigned →
    (o.sourceOf e.nameSpace e.elementIdentifier = .any →
      ∀ e' ∈ o.inNamespace e.nameSpace .issuerSigned, ¬AnswersTo e.elementIdentifier e') →
      Accepted e

/-- Each disclosed element that is asked for is the first of its source, and is accepted from it or
belongs to a requested element that nothing answers, unless it attests another age; and no requested
element has more than one list of alternative sets, unless the first one answers it. -/
structure OnlyFound : Prop where
  found : ∀ e ∈ o.available, o.AskedFor (e.nameSpace, e.elementIdentifier) →
    o.IsFirst e ∧ (o.Accepted e ∨ o.Unanswered (e.nameSpace, e.elementIdentifier)) ∨ o.AttestsAge e
  first : ∀ r, o.Requested r → o.CompleteAlternative r → ¬o.Disclosed r → o.FirstComplete r

/-- An element that is found for an element that is asked for, or that is disclosed for a requested
one that nothing answers. -/
def FoundFor (e : ElementCandidate V) : Prop :=
  (∃ r, o.AskedFor r ∧ o.verifierLookup r.1 r.2 = some e) ∨
    ∃ r, o.Requested r ∧ o.verifierLookup r.1 r.2 = none ∧
    (o.findAlternatives r.1 r.2).getD [] = [] ∧
      (o.unauthorized r.1 r.2 = some e ∨ o.disallowed r.1 r.2 = some e)

/-! ## Lookups -/

variable {o} {r : ElementReference} {e : ElementCandidate V}

theorem findElement_issuerSigned (h : findElement r.2 (o.inNamespace r.1 .issuerSigned) = some e)
    (hsource : o.sourceOf r.1 r.2 ≠ .deviceSigned) : o.AllowedFrom r e := by
  obtain ⟨hmem, -, -⟩ := findElement_eq_some h
  obtain ⟨havailable, hnameSpace, hissuer⟩ := mem_inNamespace.mp hmem
  exact ⟨havailable, hnameSpace, fun _ => hsource,
    fun hdevice => by rw [hissuer] at hdevice; cases hdevice⟩

theorem findElement_deviceSigned (h : findElement r.2 (o.authorizedDeviceSigned r.1) = some e)
    (hsource : o.sourceOf r.1 r.2 ≠ .issuerSigned) : o.AllowedFrom r e := by
  obtain ⟨hmem, -, -⟩ := findElement_eq_some h
  obtain ⟨havailable, hnameSpace, hdevice, hauthorized⟩ := mem_authorizedDeviceSigned.mp hmem
  exact ⟨havailable, hnameSpace, fun hissuer => (by rw [hissuer] at hdevice; cases hdevice),
    fun _ => ⟨hsource, hauthorized⟩⟩

/-- Where the element that is looked up comes from. -/
theorem verifierLookup_eq_some (h : o.verifierLookup r.1 r.2 = some e) :
    o.AllowedFrom r e ∧ ∃ candidates ∈
      [o.inNamespace r.1 .issuerSigned, o.inNamespace r.1 .deviceSigned,
        o.authorizedDeviceSigned r.1],
      findElement r.2 candidates = some e := by
  unfold verifierLookup at h
  split at h
  · next hsource => exact ⟨findElement_deviceSigned h (by rw [hsource]; decide), _, by simp, h⟩
  · next hsource => exact ⟨findElement_issuerSigned h (by rw [hsource]; decide), _, by simp, h⟩
  · next hsource =>
    rcases Option.or_eq_some_iff.mp h with hissuer | ⟨-, hdevice⟩
    · exact ⟨findElement_issuerSigned hissuer (by rw [hsource]; decide), _, by simp, hissuer⟩
    · exact ⟨findElement_deviceSigned hdevice (by rw [hsource]; decide), _, by simp, hdevice⟩

theorem isSome_verifierLookup : (∃ e, o.verifierLookup r.1 r.2 = some e) ↔ o.Disclosed r := by
  constructor
  · rintro ⟨e, he⟩
    obtain ⟨hallowed, candidates, -, hfound⟩ := verifierLookup_eq_some he
    exact ⟨e, hallowed, (findElement_eq_some hfound).2.1⟩
  · rintro ⟨e, hallowed, hanswers⟩
    rw [← Option.ne_none_iff_exists']
    intro hnone
    have hissuer : findElement r.2 (o.inNamespace r.1 .issuerSigned) = none →
        e.source ≠ .issuerSigned := by
      intro h hsource
      exact findElement_eq_none.mp h e
        (mem_inNamespace.mpr ⟨hallowed.available, hallowed.nameSpace, hsource⟩) hanswers
    have hdevice : findElement r.2 (o.authorizedDeviceSigned r.1) = none →
        e.source ≠ .deviceSigned := by
      intro h hsource
      refine findElement_eq_none.mp h e (mem_authorizedDeviceSigned.mpr ?_) hanswers
      exact ⟨hallowed.available, hallowed.nameSpace, hsource, (hallowed.deviceSigned hsource).2⟩
    unfold verifierLookup at hnone
    cases hsource : e.source with
    | issuerSigned =>
      split at hnone
      · next h => exact hallowed.issuerSigned hsource h
      · exact hissuer hnone hsource
      · exact hissuer (Option.or_eq_none_iff.mp hnone).1 hsource
    | deviceSigned =>
      split at hnone
      · exact hdevice hnone hsource
      · next h => exact (hallowed.deviceSigned hsource).1 h
      · exact hdevice (Option.or_eq_none_iff.mp hnone).2 hsource

/-! ## Alternatives -/

/-- An alternative set that is an option is one of the first list of alternatives of the element. -/
theorem mem_findAlternatives {option : ElementOption V}
    (h : option ∈ (o.findAlternatives r.1 r.2).getD []) :
    ∃ a, o.alternatives.find? (fun a => a.requestedElement = r) = some a ∧
      ∃ set ∈ a.alternativeElementSets, ∃ index, o.alternativeOption index set = some option := by
  unfold findAlternatives at h
  cases ha : o.alternatives.find? (fun a => a.requestedElement = r) with
  | none =>
    rw [ha] at h
    cases h
  | some a =>
    rw [ha] at h
    obtain ⟨index, hindex, hoption⟩ := List.mem_mapIdx.mp (List.reduceOption_mem_iff.mp h)
    exact ⟨a, rfl, _, List.getElem_mem hindex, index, hoption⟩

theorem findAlternatives_ne_nil (hmode : o.mode = .verifier) :
    (o.findAlternatives r.1 r.2).getD [] ≠ [] ↔ o.FirstComplete r := by
  have hlookup : ∀ m : ElementReference, (∃ e, o.lookup m.1 m.2 = some e) ↔ o.Disclosed m := by
    intro m
    rw [← isSome_verifierLookup, lookup, hmode]
  constructor
  · intro hne
    obtain ⟨option, hoption⟩ := List.exists_mem_of_ne_nil _ hne
    obtain ⟨a, ha, set, hset, index, hindex⟩ := mem_findAlternatives hoption
    have hall := (isSome_alternativeOption (a.nonempty set hset)).mp ⟨option, hindex⟩
    exact ⟨a, ha, set, hset, fun m hm => (hlookup m).mp (hall m hm)⟩
  · rintro ⟨a, ha, set, hset, hall⟩
    obtain ⟨index, hindex, rfl⟩ := List.getElem_of_mem hset
    obtain ⟨option, hoption⟩ :
        ∃ option, o.alternativeOption index a.alternativeElementSets[index] = some option :=
      (isSome_alternativeOption (a.nonempty _ hset)).mpr fun m hm => (hlookup m).mpr (hall m hm)
    apply List.ne_nil_of_mem (a := option)
    unfold findAlternatives
    rw [ha]
    exact List.reduceOption_mem_iff.mpr (List.mem_mapIdx.mpr ⟨index, hindex, hoption⟩)

/-! ## The elements that are used -/

theorem mem_failedClaim {claim : ClaimMatchBase} : e ∈ (o.failedClaim claim).2 ↔
    o.unauthorized claim.nameSpace claim.elementIdentifier = some e ∨
      o.disallowed claim.nameSpace claim.elementIdentifier = some e := by
  unfold failedClaim
  dsimp only
  split
  · next unauthorized hunauthorized =>
    rw [hunauthorized, List.mem_cons, Option.mem_toList, Option.some.injEq, eq_comm (a := e)]
  · next hunauthorized =>
    split
    · next disallowed hdisallowed =>
      rw [hunauthorized, hdisallowed, List.mem_singleton, Option.some.injEq, eq_comm (a := e)]
      exact ⟨.inr, fun h => h.resolve_left nofun⟩
    · next hdisallowed =>
      rw [hunauthorized, hdisallowed]
      exact ⟨nofun, fun h => by rcases h with h | h <;> cases h⟩

theorem optionsFor_of_some (h : o.verifierLookup r.1 r.2 = some e) :
    o.optionsFor r.1 r.2 (o.verifierLookup r.1 r.2) =
      ⟨none, [e], List.cons_ne_nil _ _⟩ :: (o.findAlternatives r.1 r.2).getD [] := by
  rw [h]
  rfl

theorem optionsFor_of_none (h : o.verifierLookup r.1 r.2 = none) :
    o.optionsFor r.1 r.2 (o.verifierLookup r.1 r.2) = (o.findAlternatives r.1 r.2).getD [] := by
  rw [h]
  rfl

/-- The elements of an option answer an element that is asked for. -/
theorem mem_optionsFor (hmode : o.mode = .verifier) (hr : o.Requested r) {option : ElementOption V}
    (hoption : option ∈ o.optionsFor r.1 r.2 (o.verifierLookup r.1 r.2))
    (he : e ∈ option.elements) :
    ∃ m, o.AskedFor m ∧ o.verifierLookup m.1 m.2 = some e := by
  have halternatives : option ∈ (o.findAlternatives r.1 r.2).getD [] →
      ∃ m, o.AskedFor m ∧ o.verifierLookup m.1 m.2 = some e := by
    intro hoption
    obtain ⟨a, ha, set, hset, index, hindex⟩ := mem_findAlternatives hoption
    obtain rfl : a.requestedElement = r := of_decide_eq_true
      (List.find?_some (p := fun a : AlternativeDataElementsSet => a.requestedElement = r) ha)
    have hall := (alternativeOption_eq_some hindex).2
    obtain ⟨i, hi, rfl⟩ := List.getElem_of_mem he
    have hi' : i < set.length := hall.length_eq ▸ hi
    have hlookup := hall.get hi' hi
    rw [lookup, hmode] at hlookup
    exact ⟨_, .inr ⟨a, List.mem_of_find?_eq_some ha, hr, set, hset, List.getElem_mem hi'⟩, hlookup⟩
  cases hlookup : o.verifierLookup r.1 r.2 with
  | none => exact halternatives (optionsFor_of_none hlookup ▸ hoption)
  | some e' =>
    rw [optionsFor_of_some hlookup, List.mem_cons] at hoption
    rcases hoption with rfl | hoption
    · obtain rfl := List.mem_singleton.mp he
      exact ⟨r, .inl hr, hlookup⟩
    · exact halternatives hoption

theorem used_verifierClaim (hmode : o.mode = .verifier) {retain : Bool} (hr : o.Requested r)
    (he : e ∈ (o.verifierClaim (r.1, r.2, retain)).2) : o.FoundFor e := by
  unfold verifierClaim settle at he
  dsimp only at he
  split at he
  · next first others hoptions =>
    exact .inl (mem_optionsFor hmode hr (hoptions ▸ List.mem_cons_self) he)
  · next hoptions =>
    cases hlookup : o.verifierLookup r.1 r.2 with
    | none =>
      rw [optionsFor_of_none hlookup] at hoptions
      exact .inr ⟨r, hr, hlookup, hoptions, mem_failedClaim.mp he⟩
    | some e' =>
      rw [optionsFor_of_some hlookup] at hoptions
      cases hoptions

/-- The elements that a match marks are those that are found for an element that is asked for. -/
theorem mem_usedElements (hmode : o.mode = .verifier) : e ∈ o.usedElements ↔ o.FoundFor e := by
  have hclaims : o.claims = o.requestedElements.map o.verifierClaim := by rw [claims, hmode]
  rw [usedElements, List.mem_append, List.mem_flatMap, hclaims, alternativeElements,
    List.mem_flatMap]
  constructor
  · rintro (⟨claim, hclaim, he⟩ | ⟨a, ha, he⟩)
    · obtain ⟨r, hr, rfl⟩ := List.mem_map.mp hclaim
      exact used_verifierClaim hmode (r := (r.1, r.2.1)) ⟨r.2.2, hr⟩ he
    · split at he
      · next hrequested =>
        obtain ⟨m, hm, hlookup⟩ := List.mem_map.mp (List.reduceOption_mem_iff.mp he)
        obtain ⟨set, hset, hm⟩ := List.mem_flatten.mp hm
        rw [lookup, hmode] at hlookup
        exact .inl ⟨m, .inr ⟨a, ha, requested_iff.mpr hrequested, set, hset, hm⟩, hlookup⟩
      · cases he
  · rintro (⟨r, ⟨retain, hr⟩ | ⟨a, ha, hrequested, set, hset, hm⟩, hlookup⟩ | ⟨r, ⟨retain, hr⟩,
      hnone, hnil, hfailed⟩)
    · refine .inl ⟨_, List.mem_map_of_mem hr, ?_⟩
      unfold verifierClaim
      dsimp only
      rw [optionsFor_of_some hlookup]
      exact List.mem_singleton_self e
    · refine .inr ⟨a, ha, ?_⟩
      rw [if_pos (requested_iff.mp hrequested), List.reduceOption_mem_iff]
      refine List.mem_map.mpr ⟨r, List.mem_flatten.mpr ⟨set, hset, hm⟩, ?_⟩
      rw [lookup, hmode]
      exact hlookup
    · refine .inl ⟨_, List.mem_map_of_mem hr, ?_⟩
      unfold verifierClaim
      dsimp only
      rw [optionsFor_of_none hnone, hnil]
      exact mem_failedClaim.mpr hfailed

/-- An element that is disclosed for a claim that is not answered is found in one of the sources. -/
theorem findElement_of_failed
    (h : o.unauthorized r.1 r.2 = some e ∨ o.disallowed r.1 r.2 = some e) :
    ∃ source, findElement r.2 (o.inNamespace r.1 source) = some e := by
  unfold unauthorized disallowed at h
  rcases h with h | h
  all_goals
    split at h
    all_goals first | exact ⟨_, h⟩ | cases h

theorem available_of_foundFor (h : o.FoundFor e) : e ∈ o.available := by
  rcases h with ⟨r, -, hlookup⟩ | ⟨r, -, -, -, hfound⟩
  · exact (verifierLookup_eq_some hlookup).1.available
  · obtain ⟨source, hfound⟩ := findElement_of_failed hfound
    exact (mem_inNamespace.mp (findElement_eq_some hfound).1).1

/-- An element is reported unless it is found for an element that is asked for. -/
theorem mem_matchElements (hmode : o.mode = .verifier) :
    e ∈ (matchElements o).2 ↔ e ∈ o.available ∧ ¬o.FoundFor e := by
  rw [matchElements, List.mem_filter, decide_eq_true_eq, List.mem_map]
  refine and_congr_right fun he => not_congr ⟨?_, fun h => ⟨e, (mem_usedElements hmode).mpr h, rfl⟩⟩
  rintro ⟨e', he', hposition⟩
  have hfound := (mem_usedElements hmode).mp he'
  rwa [eq_of_position he (available_of_foundFor hfound) hposition.symm]

/-! ## The report -/

theorem unanswered_iff (hmode : o.mode = .verifier) : o.Unanswered r ↔
    o.Requested r ∧ o.verifierLookup r.1 r.2 = none ∧
    (o.findAlternatives r.1 r.2).getD [] = [] := by
  have hlookup : ¬o.Disclosed r ↔ o.verifierLookup r.1 r.2 = none := by
    rw [← isSome_verifierLookup, ← Option.ne_none_iff_exists', not_not]
  have hnil : ¬o.FirstComplete r ↔ (o.findAlternatives r.1 r.2).getD [] = [] := by
    rw [← findAlternatives_ne_nil hmode, not_not]
  rw [← hlookup, ← hnil]
  exact ⟨fun h => ⟨h.requested, h.not_disclosed, h.not_complete⟩, fun ⟨h, h', h''⟩ => ⟨h, h', h''⟩⟩

/-- An element that is found by its own identifier is the first with it. -/
theorem findElement_self {candidates : List (ElementCandidate V)} :
    findElement e.elementIdentifier candidates = some e ↔
      candidates.find? (fun candidate => candidate.elementIdentifier = e.elementIdentifier) =
        some e := by
  constructor
  · intro h
    rcases Option.or_eq_some_iff.mp h with hfound | ⟨hnone, -⟩
    · exact hfound
    · exact absurd (decide_eq_true rfl) (List.find?_eq_none.mp hnone e (findElement_eq_some h).1)
  · exact fun h => Option.or_eq_some_iff.mpr (.inl h)

theorem IsFirst.findElement (h : o.IsFirst e) :
    findElement e.elementIdentifier (o.inNamespace e.nameSpace e.source) = some e :=
  findElement_self.mpr h

theorem isFirst_of_findElement {source : DisclosedElementSource}
    (h : findElement e.elementIdentifier (o.inNamespace e.nameSpace source) = some e) :
    o.IsFirst e := by
  obtain ⟨-, -, hsource⟩ := mem_inNamespace.mp (findElement_eq_some h).1
  rw [← hsource] at h
  exact findElement_self.mp h

/-- The authorization is that of the identifier. -/
theorem findElement_authorized :
    findElement e.elementIdentifier (o.authorizedDeviceSigned e.nameSpace) = some e ↔
      e.source = .deviceSigned ∧ o.Authorized e ∧ o.IsFirst e := by
  have hfind : o.Authorized e → (o.authorizedDeviceSigned e.nameSpace).find?
      (fun candidate => candidate.elementIdentifier = e.elementIdentifier) =
      (o.inNamespace e.nameSpace .deviceSigned).find?
        fun candidate => candidate.elementIdentifier = e.elementIdentifier := by
    intro hauthorized
    rw [authorizedDeviceSigned, List.find?_filter]
    apply List.find?_congr
    intro candidate hcandidate
    by_cases hid : candidate.elementIdentifier = e.elementIdentifier
    · have hsame : isDeviceSignedElementAuthorized o.keyAuthorizations candidate.nameSpace
          candidate.elementIdentifier = true := by
        rw [(mem_inNamespace.mp hcandidate).2.1, hid]
        exact hauthorized
      simp [hsame]
    · simp [hid]
  rw [findElement_self]
  constructor
  · intro h
    obtain ⟨-, -, hsource, hauthorized⟩ :=
      mem_authorizedDeviceSigned.mp (List.mem_of_find?_eq_some h)
    rw [hfind hauthorized, ← hsource] at h
    exact ⟨hsource, hauthorized, h⟩
  · rintro ⟨hsource, hauthorized, hfirst⟩
    rw [IsFirst, hsource] at hfirst
    rw [hfind hauthorized, hfirst]

/-- An element is looked up by its own identifier exactly if it is the first of its source and is
accepted from it. -/
theorem verifierLookup_self :
    o.verifierLookup e.nameSpace e.elementIdentifier = some e ↔ o.IsFirst e ∧ o.Accepted e := by
  have hissuer : findElement e.elementIdentifier
      (o.inNamespace e.nameSpace .issuerSigned) = some e ↔
      e.source = .issuerSigned ∧ o.IsFirst e := by
    constructor
    · exact fun h => ⟨(mem_inNamespace.mp (findElement_eq_some h).1).2.2, isFirst_of_findElement h⟩
    · rintro ⟨hsource, hfirst⟩
      rw [← hsource]
      exact hfirst.findElement
  unfold verifierLookup
  cases hoptions : o.sourceOf e.nameSpace e.elementIdentifier with
  | deviceSigned =>
    dsimp only
    rw [findElement_authorized]
    constructor
    · rintro ⟨hsource, hauthorized, hfirst⟩
      exact ⟨hfirst, .deviceSigned hsource hauthorized (by rw [hoptions]; nofun)
        (by rw [hoptions]; nofun)⟩
    · rintro ⟨hfirst, ⟨-, hallowed⟩ | ⟨hsource, hauthorized, -, -⟩⟩
      · exact absurd hoptions hallowed
      · exact ⟨hsource, hauthorized, hfirst⟩
  | issuerSigned =>
    dsimp only
    rw [hissuer]
    constructor
    · rintro ⟨hsource, hfirst⟩
      exact ⟨hfirst, .issuerSigned hsource (by rw [hoptions]; nofun)⟩
    · rintro ⟨hfirst, ⟨hsource, -⟩ | ⟨-, -, hallowed, -⟩⟩
      · exact ⟨hsource, hfirst⟩
      · exact absurd hoptions hallowed
  | any =>
    -- a device-signed element is only taken where no issuer-signed one is found
    dsimp only
    rw [Option.or_eq_some_iff, hissuer, findElement_authorized, findElement_eq_none]
    constructor
    · rintro (⟨hsource, hfirst⟩ | ⟨hnone, hsource, hauthorized, hfirst⟩)
      · exact ⟨hfirst, .issuerSigned hsource (by rw [hoptions]; nofun)⟩
      · exact ⟨hfirst, .deviceSigned hsource hauthorized (by rw [hoptions]; nofun) fun _ => hnone⟩
    · rintro ⟨hfirst, ⟨hsource, -⟩ | ⟨hsource, hauthorized, -, hnone⟩⟩
      · exact .inl ⟨hsource, hfirst⟩
      · exact .inr ⟨hnone hoptions, hsource, hauthorized, hfirst⟩

/-- An element of a requested element that nothing answers is not accepted from its source, and is
reported from it. -/
theorem failed_of_unanswered (he : e ∈ o.available) (hfirst : o.IsFirst e)
    (h : o.Unanswered (e.nameSpace, e.elementIdentifier)) :
    o.unauthorized e.nameSpace e.elementIdentifier = some e ∨
    o.disallowed e.nameSpace e.elementIdentifier = some e := by
  have hfound := hfirst.findElement
  have hnot : ¬o.AllowedFrom (e.nameSpace, e.elementIdentifier) e :=
    fun hallowed => h.not_disclosed ⟨e, hallowed, .inl rfl⟩
  unfold unauthorized disallowed
  cases hsource : e.source with
  | issuerSigned =>
    rw [hsource] at hfound
    cases hoptions : o.sourceOf e.nameSpace e.elementIdentifier with
    | deviceSigned => exact .inr hfound
    | issuerSigned =>
      exact absurd ⟨he, rfl, fun _ => by rw [hoptions]; nofun,
        fun hdevice => by rw [hsource] at hdevice; cases hdevice⟩ hnot
    | any =>
      exact absurd ⟨he, rfl, fun _ => by rw [hoptions]; nofun,
        fun hdevice => by rw [hsource] at hdevice; cases hdevice⟩ hnot
  | deviceSigned =>
    rw [hsource] at hfound
    cases o.sourceOf e.nameSpace e.elementIdentifier with
    | deviceSigned => exact .inl hfound
    | issuerSigned => exact .inr hfound
    | any => exact .inl hfound

/-- The elements that are found, by what is disclosed and asked for. -/
theorem foundFor_iff (hmode : o.mode = .verifier) (he : e ∈ o.available) : o.FoundFor e ↔
    o.AskedFor (e.nameSpace, e.elementIdentifier) ∧
      o.IsFirst e ∧ (o.Accepted e ∨ o.Unanswered (e.nameSpace, e.elementIdentifier)) ∨
      o.AttestsAge e := by
  constructor
  · rintro (⟨⟨nameSpace, id⟩, hr, hlookup⟩ | ⟨⟨nameSpace, id⟩, hr, hnone, hnil, hfailed⟩)
    · obtain rfl : e.nameSpace = nameSpace := (verifierLookup_eq_some hlookup).1.nameSpace
      -- under another identifier than its own it attests an age
      by_cases hid : e.elementIdentifier = id
      · subst hid
        obtain ⟨hfirst, haccepted⟩ := verifierLookup_self.mp hlookup
        exact .inl ⟨hr, hfirst, .inl haccepted⟩
      · exact .inr ⟨_, hr, hid, .inl hlookup⟩
    · have hunanswered := (unanswered_iff hmode).mpr ⟨hr, hnone, hnil⟩
      obtain ⟨source, hfound⟩ := findElement_of_failed hfailed
      obtain rfl : e.nameSpace = nameSpace :=
        (mem_inNamespace.mp (findElement_eq_some hfound).1).2.1
      by_cases hid : e.elementIdentifier = id
      · subst hid
        exact .inl ⟨.inl hr, isFirst_of_findElement hfound, .inr hunanswered⟩
      · exact .inr ⟨_, .inl hr, hid, .inr ⟨hunanswered, hfailed⟩⟩
  · rintro (⟨hasked, hfirst, haccepted | hunanswered⟩ | ⟨r, hr, -,
      hlookup | ⟨hunanswered, hfailed⟩⟩)
    · exact .inl ⟨_, hasked, verifierLookup_self.mpr ⟨hfirst, haccepted⟩⟩
    · obtain ⟨hr, hnone, hnil⟩ := (unanswered_iff hmode).mp hunanswered
      exact .inr ⟨_, hr, hnone, hnil, failed_of_unanswered he hfirst hunanswered⟩
    · exact .inl ⟨r, hr, hlookup⟩
    · obtain ⟨hr, hnone, hnil⟩ := (unanswered_iff hmode).mp hunanswered
      exact .inr ⟨r, hr, hnone, hnil, hfailed⟩

theorem isSuccess_iff {claim : ElementMatch V} : claim.isSuccess = true ↔ claim.options ≠ [] := by
  cases claim with
  | success claim first others listOptions => exact ⟨fun _ => List.cons_ne_nil _ _, fun _ => rfl⟩
  | failure => exact ⟨nofun, fun h => absurd rfl h⟩

theorem options_verifierClaim {retain : Bool} : (o.verifierClaim (r.1, r.2, retain)).1.options =
    o.optionsFor r.1 r.2 (o.verifierLookup r.1 r.2) := by
  unfold verifierClaim
  dsimp only
  cases o.optionsFor r.1 r.2 (o.verifierLookup r.1 r.2) with
  | cons first others => rfl
  | nil =>
    unfold settle failedClaim
    dsimp only
    split
    · rfl
    · split <;> rfl

theorem isSuccess_verifierClaim (hmode : o.mode = .verifier) {retain : Bool} :
    (o.verifierClaim (r.1, r.2, retain)).1.isSuccess = true ↔ o.Disclosed r ∨
    o.FirstComplete r := by
  rw [isSuccess_iff, options_verifierClaim, ← findAlternatives_ne_nil hmode,
    ← isSome_verifierLookup]
  cases hlookup : o.verifierLookup r.1 r.2 with
  | none =>
    rw [← hlookup, optionsFor_of_none hlookup, hlookup]
    exact ⟨.inr, fun h => h.resolve_left nofun⟩
  | some e =>
    rw [← hlookup, optionsFor_of_some hlookup]
    exact ⟨fun _ => .inl ⟨e, hlookup⟩, fun _ => List.cons_ne_nil _ _⟩

/-- No claim is answered with a device-signed element that the device key is not authorized for. -/
theorem authorized_of_mem_options (hmode : o.mode = .verifier) {retain : Bool} (hr : o.Requested r)
    {option : ElementOption V} (hoption : option ∈ (o.verifierClaim (r.1, r.2, retain)).1.options)
    (he : e ∈ option.elements) (hsource : e.source = .deviceSigned) : o.Authorized e := by
  rw [options_verifierClaim] at hoption
  obtain ⟨m, -, hlookup⟩ := mem_optionsFor hmode hr hoption he
  exact ((verifierLookup_eq_some hlookup).1.deviceSigned hsource).2

theorem claim_verifierClaim {r : Namespace × DataElementIdentifier × Bool} :
    (o.verifierClaim r).1.claim.nameSpace = r.1 ∧
    (o.verifierClaim r).1.claim.elementIdentifier = r.2.1 := by
  unfold verifierClaim settle failedClaim
  dsimp only
  split
  · exact ⟨rfl, rfl⟩
  · split
    · exact ⟨rfl, rfl⟩
    · split <;> exact ⟨rfl, rfl⟩

theorem completeAlternative_of_find? {a : AlternativeDataElementsSet}
    (ha : o.alternatives.find? (fun a => a.requestedElement = r) = some a)
    (hset : ∃ set ∈ a.alternativeElementSets, ∀ m ∈ set, o.Disclosed m) : o.CompleteAlternative r :=
  ⟨a, List.mem_of_find?_eq_some ha, of_decide_eq_true
    (List.find?_some (p := fun a : AlternativeDataElementsSet => a.requestedElement = r) ha), hset⟩

/-- The claims and the reported elements are as they are meant to be exactly when each disclosed
element that is asked for is one that is found. -/
theorem accounts_iff (hmode : o.mode = .verifier) : o.Accounts ↔ o.OnlyFound := by
  have hclaims : (matchElements o).1 = o.requestedElements.map fun r => (o.verifierClaim r).1 := by
    rw [matchElements, claims, hmode, List.map_map]
    rfl
  constructor
  · intro h
    constructor
    · intro e he hasked
      by_contra hnot
      -- an element that no lookup finds is reported
      have hfound : ¬o.FoundFor e := by
        rwa [foundFor_iff hmode he, and_iff_right hasked]
      exact h.not_askedFor e ((mem_matchElements hmode).mpr ⟨he, hfound⟩) hasked
    · rintro r ⟨retain, hr⟩ halternative hdisclosed
      have hall := h.claims
      rw [hclaims, List.forall₂_map_right_iff, List.forall₂_same] at hall
      have hsuccess := (hall _ hr).isSuccess.mpr (.inr halternative)
      exact ((isSuccess_verifierClaim hmode).mp hsuccess).resolve_left hdisclosed
  · intro h
    constructor
    · intro e he hasked
      obtain ⟨havailable, hfound⟩ := (mem_matchElements hmode).mp he
      exact hfound ((foundFor_iff hmode havailable).mpr
        ((h.found e havailable hasked).imp_left (.intro hasked)))
    · intro e he hasked hage
      exact (mem_matchElements hmode).mpr ⟨he, fun hfound =>
        ((foundFor_iff hmode he).mp hfound).elim (fun h => hasked h.1) hage⟩
    · have hsub : (matchElements o).2.Sublist o.available := List.filter_sublist
      exact ⟨hsub, nodup_position.sublist (hsub.map _)⟩
    · rw [hclaims, List.forall₂_map_right_iff, List.forall₂_same]
      intro r hr
      have hr' : o.Requested (r.1, r.2.1) := ⟨r.2.2, hr⟩
      refine ⟨claim_verifierClaim.1, claim_verifierClaim.2, ?_, fun option hoption e he hsource =>
        authorized_of_mem_options hmode hr' hoption he hsource⟩
      refine (isSuccess_verifierClaim hmode (r := (r.1, r.2.1))).trans
        (or_congr_right' fun hdisclosed => ?_)
      exact ⟨fun ⟨a, ha, hset⟩ => completeAlternative_of_find? ha hset,
        fun halternative => h.first _ hr' halternative hdisclosed⟩

/-! ## A birth date in place of an age -/

def mdlNamespace : Namespace := "org.iso.18013.5.1"

/-- A request for an age, or for the birth date in its place, and a document with the age. -/
def ageRequest (deviceNamespaces : DeviceNamespaceItems Unit) : MatchOptions Unit where
  mode := .verifier
  namespaces := OrderedMap.empty.set mdlNamespace (OrderedMap.empty.set "age_in_years" false)
  issuerSigned := OrderedMap.empty.set mdlNamespace [("age_in_years", .other ())]
  keyAuthorizations := none
  deviceNamespaces := deviceNamespaces
  alternatives := [⟨(mdlNamespace, "age_in_years"), [[(mdlNamespace, "birth_date")]], by decide⟩]

theorem requested_ageRequest (deviceNamespaces : DeviceNamespaceItems Unit) :
    (ageRequest deviceNamespaces).Requested (mdlNamespace, "age_in_years") :=
  ⟨false, List.mem_singleton_self _⟩

/-- The document has an age attestation as well, which is not asked for. -/
def attested : DeviceNamespaceItems Unit :=
  OrderedMap.empty.set mdlNamespace (OrderedMap.empty.set "age_over_21" (.bool true))

theorem accounts_ageRequest : (ageRequest attested).Accounts := by
  have hlookup : (ageRequest attested).verifierLookup mdlNamespace "age_in_years" =
      some ⟨0, mdlNamespace, "age_in_years", .other (), .issuerSigned⟩ := by decide +kernel
  refine (accounts_iff rfl).mpr ⟨fun e he hasked => ?_, fun r hr _ hdisclosed => ?_⟩
  · rcases List.mem_pair.mp he with rfl | rfl
    · obtain ⟨hfirst, haccepted⟩ := (verifierLookup_self
        (e := ⟨0, mdlNamespace, "age_in_years", .other (), .issuerSigned⟩)).mp hlookup
      exact .inl ⟨hfirst, .inl haccepted⟩
    · exfalso
      rcases hasked with ⟨retain, hr⟩ | ⟨a, ha, -, set, hset, hr⟩
      · exact absurd (List.mem_singleton.mp hr) (by simp)
      · cases List.mem_singleton.mp ha
        cases List.mem_singleton.mp hset
        exact absurd (List.mem_singleton.mp hr) (by simp)
  · obtain ⟨retain, hr⟩ := hr
    obtain ⟨nameSpace, elementIdentifier⟩ := r
    cases List.mem_singleton.mp hr
    exact absurd (isSome_verifierLookup.mp ⟨_, hlookup⟩) hdisclosed

/-- A birth date that is disclosed device-signed beside the age is reported, though it is asked
for. -/
theorem birthDate_reported :
    let o := ageRequest (OrderedMap.empty.set mdlNamespace
      (OrderedMap.empty.set "birth_date" (.other ())))
    (matchElements o).2 = [⟨1, mdlNamespace, "birth_date", .other (), .deviceSigned⟩] ∧
      o.AskedFor (mdlNamespace, "birth_date") ∧ ¬o.Accounts := by
  intro o
  have hreported : (matchElements o).2 =
      [⟨1, mdlNamespace, "birth_date", .other (), .deviceSigned⟩] := by
    decide +kernel
  have hasked : o.AskedFor (mdlNamespace, "birth_date") :=
    .inr ⟨_, List.mem_singleton_self _, requested_ageRequest _, _, List.mem_singleton_self _,
      List.mem_singleton_self _⟩
  refine ⟨hreported, hasked, fun h => ?_⟩
  exact h.not_askedFor ⟨1, mdlNamespace, "birth_date", .other (), .deviceSigned⟩
    (by simp [hreported]) hasked

end MatchOptions

end IdentityCommon.Mdoc
