import IdentityCommon.Openid4vcUtils.ChallengeLoop

/-!
# Round trip of challenges

When the parser gives back the challenges of an encoded header.

## Main definitions

- `ReadsBack` — the parser gives the same list
- `AllRead` — the challenges that are read back

## Main results

- `readsBack_iff` — the round trip of challenges with tokens
- `headerRoundTrip_iff` — the round trip with the texts of all headers
-/

namespace IdentityCommon.Openid4vcUtils

open Ecma AssocList Value Oauth2

/-! ## Challenges that are read back -/

/-- The list is given back. -/
def ReadsBack (challenges : List Challenge) : Prop :=
  List.Forall₂ IsReadAs
    (parseWwwAuthenticateHeader (encodeWwwAuthenticateHeader challenges)) challenges

/-- Only a challenge without members is left. -/
def EndsEmpty (challenges : List Challenge) : Prop :=
  ∃ challenge, challenges = [challenge] ∧ challenge.payload.entries = []

/-- What is required of a challenge before others. -/
structure ReadsBefore (challenge : Challenge) (challenges : List Challenge) : Prop where
  /-- The name is not inherited by every object, no first text is empty and no text looks like a
  challenge. -/
  members : ∀ m ∈ challenge.payload.entries, inherited m.1 = undefined ∧ FirstKept m.2 ∧
    ∀ s ∈ m.2.strings, ¬ HasSeparator s.toList
  /-- A member without a value that is named like a scheme comes first, or last before a scheme at
  the end. -/
  names : ∀ m ∈ challenge.payload.entries.tail, m.2 = .null → m.1 ∈ wellKnownSchemes →
    EndsEmpty challenges ∧ challenge.payload.entries.getLast? = some m
  /-- Two challenges without members are not the last ones. -/
  entries : EndsEmpty challenges → challenge.payload.entries ≠ []

structure AllRead (challenges : List Challenge) : Prop where
  first : ∀ challenge ∈ challenges.head?, challenge.payload.entries ≠ []
  each : ∀ before challenge after, challenges = before ++ challenge :: after →
    ReadsBefore challenge after

theorem each_cons {challenge : Challenge} {challenges : List Challenge} :
    (∀ before c after, challenge :: challenges = before ++ c :: after → ReadsBefore c after) ↔
      ReadsBefore challenge challenges ∧ ∀ before c after, challenges = before ++ c :: after →
      ReadsBefore c after := by
  constructor
  · exact fun h => ⟨h [] _ _ rfl, fun before c after heq => h (challenge :: before) c after
      (congrArg _ heq)⟩
  · rintro ⟨hfirst, hrest⟩ before c after heq
    cases before with
    | nil =>
      cases heq
      exact hfirst
    | cons b before => exact hrest before c after (List.cons.inj heq).2

theorem each_nil : ∀ before c after, ([] : List Challenge) = before ++ c :: after →
    ReadsBefore c after := by
  intro before c after heq
  cases before <;> cases heq

/-! ## Members and parameters -/

theorem tailPasses_true {ps : List Param} :
    TailPasses True ps ↔ (∀ p ∈ ps, TextPasses p) ∧ ∀ p ∈ ps, NamePasses p := by
  induction ps with
  | nil => exact iff_of_true trivial ⟨nofun, nofun⟩
  | cons p ps ih =>
    rw [TailPasses, ih, List.forall_mem_cons, List.forall_mem_cons]
    simp only [not_true_eq_false, false_and, or_false]
    tauto

theorem tailPasses_false {ps : List Param} :
    TailPasses False ps ↔ (∀ p ∈ ps, TextPasses p) ∧ ∀ p ∈ ps.dropLast, NamePasses p := by
  induction ps with
  | nil => exact iff_of_true trivial ⟨nofun, nofun⟩
  | cons p ps ih =>
    rw [TailPasses, ih, List.forall_mem_cons]
    cases ps with
    | nil => simp
    | cons q ps =>
      simp only [List.dropLast_cons_cons, List.forall_mem_cons, not_false_eq_true, true_and,
        reduceCtorEq, or_false]
      tauto

theorem passes_true {ps : List Param} : Passes True ps ↔ (∀ p ∈ ps, TextPasses p) ∧
    ∀ p ∈ ps.tail, NamePasses p := by
  cases ps with
  | nil => exact iff_of_true trivial ⟨nofun, nofun⟩
  | cons p ps => rw [Passes, tailPasses_true, List.forall_mem_cons, List.tail_cons, and_assoc]

theorem passes_false {ps : List Param} :
    Passes False ps ↔ (∀ p ∈ ps, TextPasses p) ∧ ∀ p ∈ ps.tail.dropLast, NamePasses p := by
  cases ps with
  | nil => exact iff_of_true trivial ⟨nofun, nofun⟩
  | cons p ps => rw [Passes, tailPasses_false, List.forall_mem_cons, List.tail_cons, and_assoc]

theorem passes_true_iff {ps : List Param} :
    Passes True ps ↔ Passes False ps ∧ ∀ p ∈ ps.tail.getLast?, NamePasses p := by
  rw [passes_true, passes_false, and_assoc]
  refine and_congr_right fun _ => ?_
  rcases List.eq_nil_or_concat ps.tail with hnil | ⟨qs, q, hconcat⟩
  · simp [hnil]
  · rw [hconcat, List.concat_eq_append, List.dropLast_concat, List.getLast?_concat,
      List.forall_mem_append]
    simp

/-- The names of the members without a value are no schemes. -/
def NoSchemes (ms : List (String × PayloadValue)) : Prop :=
  ∀ m ∈ ms, m.2 = .null → m.1 ∉ wellKnownSchemes

section entries

variable {challenge : Challenge} (h : PayloadFor challenge)

include h

theorem params_ne_nil {m : String × PayloadValue} (hm : m ∈ challenge.payload.entries) :
    paramsOf m.1 m.2 ≠ [] := by
  refine paramsOf_ne_nil.mpr ?_
  have hvalue := (h m hm).2
  constructor
  · intro heq
    rw [heq] at hvalue
    exact hvalue
  · intro heq
    rw [heq] at hvalue
    exact absurd hvalue.1 (by decide)

theorem params_eq_nil_iff : challenge.params = [] ↔ challenge.payload.entries = [] := by
  rw [Challenge.params, List.flatMap_eq_nil_iff]
  constructor
  · intro hall
    by_contra hne
    obtain ⟨m, hm⟩ := List.exists_mem_of_ne_nil _ hne
    exact params_ne_nil h hm (hall m hm)
  · intro hnil m hm
    rw [hnil] at hm
    cases hm

theorem textPasses_iff : (∀ p ∈ challenge.params, TextPasses p) ↔
    ∀ m ∈ challenge.payload.entries, ∀ s ∈ m.2.strings, ¬ HasSeparator s.toList := by
  rw [Challenge.params, List.forall_mem_flatMap]
  refine forall₂_congr fun m hm => ?_
  rcases paramsOf_cases (h m hm).2 with ⟨heq, hvalue⟩ | ⟨heq, -⟩
  · rw [heq, List.forall_mem_singleton]
    refine iff_of_true (fun t ht => by cases ht) ?_
    rcases hvalue with hvalue | hvalue
    · rw [hvalue]
      exact List.forall_mem_nil _
    · rw [hvalue]
      exact List.forall_mem_singleton.mpr not_hasSeparator_nil
  · rw [heq, List.forall_mem_map]
    refine forall₂_congr fun s _ => ⟨fun hpasses => hpasses _ rfl, fun hno t ht => ?_⟩
    rwa [← escape_injective (Option.some.inj ht)]

variable (hread : MembersRead challenge)

include hread

/-- The name of a parameter matters where it is the only one of its member. -/
theorem names_paramsOf {m : String × PayloadValue} (hm : m ∈ challenge.payload.entries) :
    ((∀ p ∈ paramsOf m.1 m.2, NamePasses p) ↔ (m.2 = .null → m.1 ∉ wellKnownSchemes)) ∧
      (∀ p ∈ (paramsOf m.1 m.2).tail, NamePasses p) ∧
      ∀ p ∈ (paramsOf m.1 m.2).dropLast, NamePasses p := by
  rcases paramsOf_cases (h m hm).2 with ⟨heq, hvalue⟩ | ⟨heq, -, hvalue⟩
  · have hnull : m.2 = .null := by
      rcases hvalue with hvalue | hvalue
      · exact hvalue
      · have hkept := (hread m hm).2
        rw [hvalue] at hkept
        exact absurd rfl hkept
    rw [heq, List.forall_mem_singleton, NamePasses, toHeaderText_token (h m hm).1,
      String.ofList_toList]
    exact ⟨⟨fun hname _ => hname rfl, fun hname _ => hname hnull⟩, nofun, nofun⟩
  · have hall : ∀ p ∈ paramsOf m.1 m.2, NamePasses p := by
      rw [heq]
      refine List.forall_mem_map.mpr fun s _ hnone => ?_
      cases hnone
    exact ⟨iff_of_true hall fun hnull => absurd hnull hvalue,
      fun p hp => hall p (List.mem_of_mem_tail hp),
        fun p hp => hall p (List.mem_of_mem_dropLast hp)⟩

theorem namesPass_tail : (∀ p ∈ challenge.params.tail, NamePasses p) ↔
    NoSchemes challenge.payload.entries.tail := by
  have hnames := fun m hm => names_paramsOf (m := m) h hread hm
  have hne := fun m hm => params_ne_nil (m := m) h hm
  unfold Challenge.params NoSchemes
  cases hentries : challenge.payload.entries with
  | nil => exact iff_of_true nofun nofun
  | cons m ms =>
    rw [hentries] at hnames hne
    obtain ⟨hm, hms⟩ := List.forall_mem_cons.mp hnames
    rw [List.flatMap_cons, List.tail_append_of_ne_nil (hne m List.mem_cons_self),
      List.forall_mem_append, and_iff_right hm.2.1, List.forall_mem_flatMap]
    exact forall₂_congr fun m' hm' => (hms m' hm').1

theorem namesPass_dropLast :
    (∀ p ∈ challenge.params.tail.dropLast, NamePasses p) ↔
      NoSchemes challenge.payload.entries.tail.dropLast := by
  have hnames := fun m hm => names_paramsOf (m := m) h hread hm
  have hne := fun m hm => params_ne_nil (m := m) h hm
  unfold Challenge.params NoSchemes
  cases hentries : challenge.payload.entries with
  | nil => exact iff_of_true nofun nofun
  | cons m ms =>
    rw [hentries] at hnames hne
    obtain ⟨hm, hms⟩ := List.forall_mem_cons.mp hnames
    rw [List.flatMap_cons, List.tail_append_of_ne_nil (hne m List.mem_cons_self)]
    rcases List.eq_nil_or_concat ms with hnil | ⟨ms', l, hconcat⟩
    · rw [hnil, List.flatMap_nil, List.append_nil]
      exact iff_of_true (fun p hp => hm.2.1 p (List.mem_of_mem_dropLast hp)) nofun
    · rw [hconcat, List.concat_eq_append] at hms hne ⊢
      have hl : l ∈ ms' ++ [l] := List.mem_append_right _ List.mem_cons_self
      rw [List.tail_cons, List.dropLast_concat, List.flatMap_append, List.flatMap_singleton,
        ← List.append_assoc, List.dropLast_append_of_ne_nil (hne l (List.mem_cons_of_mem _ hl)),
        List.forall_mem_append, List.forall_mem_append, and_iff_right hm.2.1,
        and_iff_left (hms l hl).2.2, List.forall_mem_flatMap]
      exact forall₂_congr fun m' hm' => (hms m' (List.mem_append_left _ hm')).1

omit h hread in
/-- Keys are distinct, and all members but the last one are not the last one. -/
theorem noSchemes_dropLast : NoSchemes challenge.payload.entries.tail.dropLast ↔
    ∀ m ∈ challenge.payload.entries.tail, m.2 = .null → m.1 ∈ wellKnownSchemes →
      challenge.payload.entries.getLast? = some m := by
  have hnodup := challenge.payload.nodup
  unfold NoSchemes
  cases hentries : challenge.payload.entries with
  | nil => exact iff_of_true nofun nofun
  | cons m ms =>
    rw [hentries] at hnodup
    rcases List.eq_nil_or_concat ms with rfl | ⟨ms', l, rfl⟩
    · exact iff_of_true nofun nofun
    rw [List.concat_eq_append] at hnodup ⊢
    have hlast : (m :: (ms' ++ [l])).getLast? = some l := List.getLast?_concat (l := m :: ms')
    rw [List.tail_cons, List.dropLast_concat, List.forall_mem_append,
      List.forall_mem_singleton, hlast, and_iff_left fun _ _ => rfl]
    refine forall₂_congr fun m' hm' => forall_congr' fun _ => ⟨fun hno hmem => absurd hmem hno,
      fun hsome hmem => ?_⟩
    have heq := Option.some.inj (hsome hmem)
    have hkeys : (keys ms' ++ [l.1]).Nodup := by
      have hrest := (List.nodup_cons.mp hnodup).2
      rwa [List.map_append] at hrest
    exact (List.nodup_append.mp hkeys).2.2 m'.1 (mem_keys_of_mem hm') l.1 List.mem_cons_self
      (congrArg Prod.fst heq.symm)

end entries

theorem readsBefore_iff {challenge : Challenge} (h : PayloadFor challenge)
    {challenges : List Challenge} (hends : ¬ EndsEmpty challenges) :
    ReadsBefore challenge challenges ↔ Passes True challenge.params ∧ MembersRead challenge := by
  constructor
  · intro hbefore
    have hread : MembersRead challenge :=
      fun m hm => ⟨(hbefore.members m hm).1, (hbefore.members m hm).2.1⟩
    refine ⟨passes_true.mpr
      ⟨(textPasses_iff h).mpr fun m hm => (hbefore.members m hm).2.2, ?_⟩, hread⟩
    exact (namesPass_tail h hread).mpr fun m hm hnull hmem => hends
      (hbefore.names m hm hnull hmem).1
  · rintro ⟨hpasses, hread⟩
    obtain ⟨htexts, hnames⟩ := passes_true.mp hpasses
    have htexts := (textPasses_iff h).mp htexts
    have hnames := (namesPass_tail h hread).mp hnames
    exact ⟨fun m hm => ⟨(hread m hm).1, (hread m hm).2, htexts m hm⟩,
      fun m hm hnull hmem => absurd hmem (hnames m hm hnull), fun hend => absurd hend hends⟩

theorem readsBefore_iff_of_endsEmpty {challenge : Challenge} (h : PayloadFor challenge)
    {challenges : List Challenge} (hends : EndsEmpty challenges) :
    ReadsBefore challenge challenges ↔
      (Passes False challenge.params ∧ MembersRead challenge) ∧ challenge.payload.entries ≠ [] := by
  constructor
  · intro hbefore
    have hread : MembersRead challenge :=
      fun m hm => ⟨(hbefore.members m hm).1, (hbefore.members m hm).2.1⟩
    refine ⟨⟨passes_false.mpr
      ⟨(textPasses_iff h).mpr fun m hm => (hbefore.members m hm).2.2, ?_⟩, hread⟩,
      hbefore.entries hends⟩
    refine (namesPass_dropLast h hread).mpr (noSchemes_dropLast.mpr fun m hm hnull hmem => ?_)
    exact (hbefore.names m hm hnull hmem).2
  · rintro ⟨⟨hpasses, hread⟩, hne⟩
    obtain ⟨htexts, hnames⟩ := passes_false.mp hpasses
    have htexts := (textPasses_iff h).mp htexts
    have hnames := noSchemes_dropLast.mp ((namesPass_dropLast h hread).mp hnames)
    exact ⟨fun m hm => ⟨(hread m hm).1, (hread m hm).2, htexts m hm⟩,
      fun m hm hnull hmem => ⟨hends, hnames m hm hnull hmem⟩, fun _ => hne⟩

/-! ## Ends of a header -/

theorem eq_nil_or_append_singleton {α : Type} (l : List α) :
    l = [] ∨ ∃ front last, l = front ++ [last] := by
  rcases List.eq_nil_or_concat l with h | ⟨front, last, h⟩
  · exact .inl h
  · exact .inr ⟨front, last, h.trans List.concat_eq_append⟩

theorem tailText_concat (ps : List Param) (q : Param) :
    tailText (ps ++ [q]) = tailText ps ++ (", ".toList ++ q.text) := by
  rw [tailText, List.flatMap_append, List.flatMap_singleton]
  rfl

theorem following_concat (challenges : List Challenge) (challenge : Challenge) :
    following (challenges ++ [challenge]) =
      following challenges ++
      (", ".toList ++ (challenge.scheme.toList ++ payloadText challenge.params)) := by
  rw [following, List.flatMap_append, List.flatMap_singleton]
  rfl

/-- At the end of a text, a parameter is taken for a scheme if it has no value and comes after
another one. -/
theorem endsWithScheme_payloadText {text : List Char} (htext : text.getLast? ≠ some ',') {p : Param}
    {ps : List Param} (hps : ∀ q ∈ p :: ps, WellFormed q) :
    ((∀ q ∈ ps.getLast?, NamePasses q) ∧ endsWithScheme (text ++ payloadText (p :: ps)) = none) ∨
      ¬ (∀ q ∈ ps.getLast?, NamePasses q) ∧
      ∃ value scheme, endsWithScheme (text ++ payloadText (p :: ps)) = some (value, scheme) := by
  -- a value ends with a quote
  have hquoted : ∀ {q : Param} {quoted}, q.quoted = some quoted →
      ∀ t, endsWithScheme (t ++ q.text) = none := by
    intro q quoted hq t
    have hend : t ++ q.text = (t ++ (q.name ++ ("=\"".toList ++ quoted))) ++ ['"'] := by
      rw [Param.text, hq]
      simp
    rw [hend]
    exact endsWithScheme_quote _
  have hname : ∀ {q : Param}, q.quoted = none → q.text = q.name := by
    intro q hq
    rw [Param.text, hq]
    exact List.append_nil _
  rcases eq_nil_or_append_singleton ps with rfl | ⟨qs, q, rfl⟩
  · refine .inl ⟨fun q hq => absurd hq (Option.not_mem_none q), ?_⟩
    rw [payloadText, tailText, List.flatMap_nil, List.append_nil]
    cases hq : p.quoted with
    | none =>
      rw [hname hq, endsWithScheme_word (hps p List.mem_cons_self).name]
      exact if_neg fun hif => htext hif.2
    | some quoted =>
      have hnone := hquoted hq (text ++ [' '])
      rwa [List.append_assoc] at hnone
  · have hq := hps q (List.mem_cons_of_mem _ (List.mem_append_right _ List.mem_cons_self))
    have heq : text ++ payloadText (p :: (qs ++ [q])) =
        (text ++ payloadText (p :: qs) ++ [',', ' ']) ++ q.text := by
      rw [payloadText, payloadText, tailText_concat]
      simp
    have hlast : (∀ q' ∈ (qs ++ [q]).getLast?, NamePasses q') ↔ NamePasses q := by
      rw [List.getLast?_concat]
      simp
    rw [heq, hlast]
    cases hquote : q.quoted with
    | none =>
      have hspace : (text ++ payloadText (p :: qs) ++ [',', ' ']) ++ q.text =
          (text ++ payloadText (p :: qs) ++ [',']) ++ ' ' :: q.name := by
        rw [hname hquote]
        simp
      rw [hspace, endsWithScheme_word hq.name, List.getLast?_concat]
      by_cases hmem : String.ofList q.name ∈ wellKnownSchemes
      · rw [if_pos ⟨hmem, rfl⟩]
        exact .inr ⟨fun hpasses => hpasses hquote hmem, _, _, rfl⟩
      · rw [if_neg fun hif => hmem hif.1]
        exact .inl ⟨fun _ => hmem, rfl⟩
    | some quoted =>
      refine .inl ⟨fun hnone => ?_, hquoted hquote _⟩
      rw [hquote] at hnone
      cases hnone

theorem getLast?_scheme {scheme : String} (h : IsToken scheme) (text : List Char) :
    (text ++ scheme.toList).getLast? ≠ some ',' := by
  have hne : scheme.toList ≠ [] := fun hnil => h.1 (String.toList_eq_nil_iff.mp hnil)
  rw [List.getLast?_append_of_ne_nil _ hne]
  intro hlast
  exact (isTokenChar.tokenChar (h.2 ',' (List.mem_of_getLast? hlast))).ne.2.1 rfl

theorem forall₂_concat {α β : Type} {R : α → β → Prop} {xs : List α} {ys : List β} {x : α} {y : β} :
    List.Forall₂ R (xs ++ [x]) (ys ++ [y]) ↔ List.Forall₂ R xs ys ∧ R x y := by
  rw [← List.forall₂_reverse_iff, List.reverse_append, List.reverse_append, List.reverse_singleton,
    List.reverse_singleton, List.singleton_append, List.singleton_append, List.forall₂_cons,
    List.forall₂_reverse_iff, and_comm]

/-! ## Conditions -/

/-- Where the last challenge has members, its last one must not be taken for a scheme. -/
theorem loopReads_iff {challenge : Challenge} {challenges : List Challenge}
    (hpayload : ∀ c ∈ challenge :: challenges, PayloadFor c) {last : Challenge}
    (hlast : (challenge :: challenges).getLast? = some last)
    (hne : challenges = [] ∨ last.payload.entries ≠ []) :
    (LoopReads challenge challenges ∧ ∀ q ∈ last.params.tail.getLast?, NamePasses q) ↔
      ∀ before c after, challenge :: challenges = before ++ c :: after → ReadsBefore c after := by
  induction challenges generalizing challenge with
  | nil =>
    cases hlast
    have hends : ¬ EndsEmpty [] := by
      rintro ⟨x, heq, -⟩
      cases heq
    rw [each_cons, and_iff_left each_nil,
      readsBefore_iff (hpayload challenge List.mem_cons_self) hends, LoopReads, passes_true_iff]
    exact and_right_comm
  | cons next challenges ih =>
    obtain ⟨hp, hrest⟩ := List.forall_mem_cons.mp hpayload
    have hnext := hrest next List.mem_cons_self
    rw [List.getLast?_cons_cons] at hlast
    have hmembers : last.payload.entries ≠ [] := hne.resolve_left (List.cons_ne_nil _ _)
    have hfirst : next.params = [] → challenges ≠ [] := by
      rintro hparams rfl
      cases hlast
      exact hmembers ((params_eq_nil_iff hnext).mp hparams)
    have hends : ¬ EndsEmpty (next :: challenges) := by
      rintro ⟨x, heq, hempty⟩
      cases heq
      cases hlast
      exact hmembers hempty
    rw [each_cons, ← ih hrest hlast (.inr hmembers), readsBefore_iff hp hends, LoopReads,
      and_iff_right hfirst]
    tauto

/-- Before a challenge without members at the end. -/
theorem loopReads_iff_of_endsEmpty {challenge : Challenge} {challenges : List Challenge}
    (hpayload : ∀ c ∈ challenge :: challenges, PayloadFor c) {last : Challenge}
    (hempty : last.payload.entries = []) :
    (LoopReads challenge challenges ∧ (challenges = [] → challenge.payload.entries ≠ [])) ↔
      ∀ before c after, challenge :: (challenges ++ [last]) = before ++ c :: after →
      ReadsBefore c after := by
  have hlast : ReadsBefore last [] := by
    refine ⟨?_, ?_, ?_⟩
    · rw [hempty]
      exact List.forall_mem_nil _
    · rw [hempty]
      exact List.forall_mem_nil _
    · rintro ⟨x, heq, -⟩
      cases heq
  induction challenges generalizing challenge with
  | nil =>
    have hends : EndsEmpty [last] := ⟨last, rfl, hempty⟩
    rw [List.nil_append, each_cons, each_cons, and_iff_left each_nil, and_iff_left hlast,
      readsBefore_iff_of_endsEmpty (hpayload challenge List.mem_cons_self) hends, LoopReads]
    exact and_congr_right fun _ => forall_prop_of_true rfl
  | cons next challenges ih =>
    obtain ⟨hp, hrest⟩ := List.forall_mem_cons.mp hpayload
    have hnext := hrest next List.mem_cons_self
    have hends : ¬ EndsEmpty (next :: challenges ++ [last]) := by
      rintro ⟨x, heq, -⟩
      have hlength := congrArg List.length heq
      simp at hlength
    have hparams : (next.params = [] → challenges ≠ []) ↔
        (challenges = [] → next.payload.entries ≠ []) := by
      rw [params_eq_nil_iff hnext]
      exact imp_not_comm
    rw [List.cons_append, each_cons]
    constructor
    · rintro ⟨⟨hfirst, hpasses, hread, hloop⟩, -⟩
      exact ⟨(readsBefore_iff hp hends).mpr ⟨hpasses, hread⟩,
        (ih hrest).mp ⟨hloop, hparams.mp hfirst⟩⟩
    · rintro ⟨hbefore, hafter⟩
      obtain ⟨hpasses, hread⟩ := (readsBefore_iff hp hends).mp hbefore
      obtain ⟨hloop, hfirst⟩ := (ih hrest).mpr hafter
      exact ⟨⟨hparams.mpr hfirst, hpasses, hread, hloop⟩,
        fun heq => absurd heq (List.cons_ne_nil _ _)⟩

/-! ## The round trip -/

theorem takeWhile_scheme {scheme : List Char} (h : ' ' ∉ scheme) (value : List Char) :
    (scheme ++ ' ' :: value).takeWhile (· ≠ ' ') = scheme ∧
    (scheme ++ ' ' :: value).dropWhile (· ≠ ' ') = ' ' :: value := by
  have hall : ∀ c ∈ scheme, decide (c ≠ ' ') = true :=
    fun c hc => decide_eq_true fun heq => h (heq ▸ hc)
  rw [List.takeWhile_append_of_pos hall, List.dropWhile_append_of_pos hall,
    List.takeWhile_cons_of_neg (by simp), List.dropWhile_cons_of_neg (by simp), List.append_nil]
  exact ⟨rfl, rfl⟩

/-- The challenges of a text after the first scheme. -/
def challengesOf (scheme : String) (value : List Char) : List ParsedChallenge :=
  match endsWithScheme value with
  | some (value, last) => challengesFrom scheme value ++ [⟨last, []⟩]
  | none => challengesFrom scheme value

theorem challengesOf_of_none {scheme : String} {value : List Char}
    (h : endsWithScheme value = none) :
    challengesOf scheme value = challengesFrom scheme value := by
  rw [challengesOf, h]

theorem challengesOf_of_some {scheme last : String} {value front : List Char}
    (h : endsWithScheme value = some (front, last)) :
    challengesOf scheme value = challengesFrom scheme front ++ [⟨last, []⟩] := by
  rw [challengesOf, h]

theorem parse_of_space {header : String} {scheme value : List Char}
    (hheader : header.toList = scheme ++ ' ' :: value) (h : ' ' ∉ scheme) :
    parseWwwAuthenticateHeader header = challengesOf (String.ofList scheme) (' ' :: value) := by
  have hmem : ' ' ∈ scheme ++ ' ' :: value := List.mem_append_right _ List.mem_cons_self
  rw [parseWwwAuthenticateHeader, hheader]
  dsimp only
  rw [if_pos hmem, (takeWhile_scheme h value).1, (takeWhile_scheme h value).2]
  rfl

/-- The scheme of the first challenge ends at the first space, and is empty if there is none. -/
theorem exists_parse (header : String) :
    ∃ parsed rest, parseWwwAuthenticateHeader header = parsed :: rest ∧
      parsed.scheme = String.ofList (if ' ' ∈ header.toList then header.toList.takeWhile (· ≠ ' ')
        else []) := by
  have hfirst : ∀ scheme value, ∃ parsed rest,
      challengesOf (String.ofList scheme) value = parsed :: rest ∧
      parsed.scheme = String.ofList scheme := by
    intro scheme value
    cases hends : endsWithScheme value with
    | none =>
      rw [challengesOf_of_none hends]
      exact exists_challengesFrom _ _
    | some found =>
      obtain ⟨parsed, rest, hfrom, hscheme⟩ := exists_challengesFrom (String.ofList scheme) found.1
      rw [challengesOf_of_some hends, hfrom]
      exact ⟨parsed, rest ++ [⟨found.2, []⟩], rfl, hscheme⟩
  by_cases hspace : ' ' ∈ header.toList
  · rw [if_pos hspace]
    unfold parseWwwAuthenticateHeader
    dsimp only
    rw [if_pos hspace]
    exact hfirst _ _
  · rw [if_neg hspace]
    unfold parseWwwAuthenticateHeader
    dsimp only
    rw [if_neg hspace]
    exact hfirst _ _

theorem exists_space {ps : List Param} (h : ps ≠ []) : ∃ value, payloadText ps = ' ' :: value := by
  cases ps with
  | nil => exact absurd rfl h
  | cons p ps => exact ⟨_, rfl⟩

/-- Without parameters the first scheme is not read. -/
theorem not_readsBack_of_params_eq_nil {challenge : Challenge} {challenges : List Challenge}
    (htoken : ∀ c ∈ challenge :: challenges, IsToken c.scheme) (hparams : challenge.params = []) :
    ¬ ReadsBack (challenge :: challenges) := by
  intro hback
  obtain ⟨parsed, rest, hparse, hscheme⟩ :=
    exists_parse (encodeWwwAuthenticateHeader (challenge :: challenges))
  rw [ReadsBack, hparse, List.forall₂_cons] at hback
  have hname := hscheme.symm.trans hback.1.1
  have hfirst := htoken challenge List.mem_cons_self
  have hspace : ' ' ∉ challenge.scheme.toList :=
    fun hmem => (isTokenChar.tokenChar (hfirst.2 _ hmem)).ne.2.2.2.1 rfl
  rw [toList_encode htoken, hparams, payloadText, List.nil_append] at hname
  cases challenges with
  | nil =>
    rw [following, List.flatMap_nil, List.append_nil, if_neg hspace] at hname
    exact hfirst.1 hname.symm
  | cons next challenges =>
    have htext : challenge.scheme.toList ++ following (next :: challenges) =
        (challenge.scheme.toList ++ [',']) ++
        ' ' :: (next.scheme.toList ++ (payloadText next.params ++ following challenges)) := by
      rw [following_cons]
      simp
    have hno : ' ' ∉ challenge.scheme.toList ++ [','] := by
      simp [hspace]
    rw [htext, if_pos (List.mem_append_right _ List.mem_cons_self),
      (takeWhile_scheme hno _).1] at hname
    have hlength := congrArg (fun s => s.toList.length) hname
    simp at hlength

section ends

variable {challenge : Challenge} {challenges : List Challenge}
    (hpayload : ∀ c ∈ challenge :: challenges, PayloadFor c)
  (hscheme : ∀ c ∈ challenges, c.scheme ∈ wellKnownSchemes)
  (hplain : Plain (payloadText challenge.params ++ following challenges))

include hpayload hscheme hplain

/-- Where the last challenge has parameters, they are the end of the text. -/
theorem forall₂_challengesOf {last : Challenge}
    (hlast : (challenge :: challenges).getLast? = some last) (hparams : last.params ≠ []) :
    List.Forall₂ IsReadAs
      (challengesOf challenge.scheme (payloadText challenge.params ++ following challenges))
        (challenge :: challenges) ↔
      LoopReads challenge challenges ∧ ∀ q ∈ last.params.tail.getLast?, NamePasses q := by
  have hloop := forall₂_challengesFrom hpayload hscheme hplain
  have hp := hpayload last (List.mem_of_getLast? hlast)
  obtain ⟨text, htext, hcomma⟩ : ∃ text, payloadText challenge.params ++ following challenges =
      text ++ payloadText last.params ∧ text.getLast? ≠ some ',' := by
    rcases eq_nil_or_append_singleton challenges with rfl | ⟨front, d, rfl⟩
    · cases hlast
      exact ⟨[], List.append_nil _, nofun⟩
    · rw [← List.cons_append, List.getLast?_concat] at hlast
      cases hlast
      have htoken := isToken_wellKnown _ (hscheme last (List.mem_append_right _ List.mem_cons_self))
      refine ⟨(payloadText challenge.params ++ following front ++ ", ".toList) ++
        last.scheme.toList, ?_, getLast?_scheme htoken _⟩
      rw [following_concat]
      simp only [List.append_assoc]
  obtain ⟨p, ps, hcons⟩ := List.exists_cons_of_ne_nil hparams
  have hends := endsWithScheme_payloadText hcomma (hcons ▸ wellFormed_params hp)
  rw [← hcons, ← htext] at hends
  rw [hcons, List.tail_cons]
  rcases hends with ⟨hname, hnone⟩ | ⟨hname, value, scheme, hsome⟩
  · rw [challengesOf_of_none hnone, hloop, and_iff_left hname]
  · -- a challenge without members is read in the place of the last one
    obtain ⟨front, hfront⟩ := List.getLast?_eq_some_iff.mp hlast
    rw [challengesOf_of_some hsome, hfront]
    refine iff_of_false (fun hread => ?_) fun h => hname h.2
    have hsame := (forall₂_concat.mp hread).2.2
    obtain ⟨m, hm⟩ := List.exists_mem_of_ne_nil _ ((params_eq_nil_iff hp).not.mp hparams)
    have hkey := hsame m.1
    rw [OrderedMap.get_eq_some.mpr hm] at hkey
    cases hkey

end ends

/-- A last challenge without parameters is read apart. -/
theorem forall₂_challengesOf_concat {challenge : Challenge} {challenges : List Challenge}
    {last : Challenge} (hpayload : ∀ c ∈ challenge :: challenges, PayloadFor c)
    (hscheme : ∀ c ∈ challenges ++ [last], c.scheme ∈ wellKnownSchemes)
    (hplain : Plain (payloadText challenge.params ++ following (challenges ++ [last])))
    (hlast : last.payload.entries = []) :
    List.Forall₂ IsReadAs (challengesOf challenge.scheme (payloadText challenge.params ++
      following (challenges ++ [last])))
        (challenge :: (challenges ++ [last])) ↔
      LoopReads challenge challenges := by
  obtain ⟨hschemes, hscheme⟩ := List.forall_mem_append.mp hscheme
  have hwell := List.forall_mem_singleton.mp hscheme
  have hparams : last.params = [] := by
    rw [Challenge.params, hlast]
    rfl
  have htext : payloadText challenge.params ++ following (challenges ++ [last]) =
      ((payloadText challenge.params ++ following challenges) ++ [',']) ++
      ' ' :: last.scheme.toList := by
    rw [following_concat, hparams, payloadText]
    simp
  rw [htext] at hplain ⊢
  have hends := endsWithScheme_word (isToken_wellKnown _ hwell).2
    ((payloadText challenge.params ++ following challenges) ++ [','])
  rw [String.ofList_toList, List.getLast?_concat, if_pos ⟨hwell, rfl⟩,
    List.dropLast_concat] at hends
  have hread : IsReadAs ⟨last.scheme, []⟩ last := by
    refine ⟨rfl, fun key => ?_⟩
    rw [OrderedMap.get, hlast]
    rfl
  rw [challengesOf_of_some hends, ← List.cons_append, forall₂_concat, and_iff_left hread]
  exact forall₂_challengesFrom hpayload hschemes hplain.left.left

theorem readsBack_iff {challenges : List Challenge} (h : Representable challenges) :
    ReadsBack challenges ↔ AllRead challenges := by
  obtain ⟨challenge, challenges, rfl⟩ := List.exists_cons_of_ne_nil h.ne
  have hfirst : IsToken challenge.scheme := h.first challenge rfl
  have hschemes : ∀ c ∈ challenges, c.scheme ∈ wellKnownSchemes := h.rest
  have htoken : ∀ c ∈ challenge :: challenges, IsToken c.scheme :=
    List.forall_mem_cons.mpr ⟨hfirst, fun c hc => isToken_wellKnown _ (hschemes c hc)⟩
  have hpayload := h.payload
  have hempty := params_eq_nil_iff (hpayload challenge List.mem_cons_self)
  have hall : AllRead (challenge :: challenges) ↔ challenge.payload.entries ≠ [] ∧
      ∀ before c after, challenge :: challenges = before ++ c :: after → ReadsBefore c after :=
    ⟨fun h => ⟨h.first challenge rfl, h.each⟩, fun h => ⟨fun c hc => Option.some.inj hc ▸ h.1, h.2⟩⟩
  rw [hall]
  by_cases hparams : challenge.params = []
  · exact iff_of_false (not_readsBack_of_params_eq_nil htoken hparams) fun h =>
      h.1 (hempty.mp hparams)
  rw [and_iff_right (hempty.not.mp hparams)]
  -- the header after the first scheme
  have hheader := toList_encode htoken
  have hplain : Plain (payloadText challenge.params ++ following challenges) := by
    have hchars := isHeaderChar_encode (challenge :: challenges)
    rw [hheader] at hchars
    exact fun c hc => isLineTerminator_of_isHeaderChar (hchars c (List.mem_append_right _ hc))
  obtain ⟨value, hvalue⟩ := exists_space hparams
  have hspace : ' ' ∉ challenge.scheme.toList :=
    fun hmem => (isTokenChar.tokenChar (hfirst.2 _ hmem)).ne.2.2.2.1 rfl
  rw [hvalue, List.cons_append] at hheader
  have hparse := parse_of_space hheader hspace
  rw [← List.cons_append, ← hvalue, String.ofList_toList] at hparse
  rw [ReadsBack, hparse]
  obtain ⟨last, hlast⟩ : ∃ last, (challenge :: challenges).getLast? = some last :=
    ⟨_, List.getLast?_eq_some_getLast (List.cons_ne_nil _ _)⟩
  by_cases hend : challenges = [] ∨ last.payload.entries ≠ []
  · have hlastParams : last.params ≠ [] := by
      rw [Ne, params_eq_nil_iff (hpayload last (List.mem_of_getLast? hlast))]
      rcases hend with rfl | hend
      · cases hlast
        exact hempty.not.mp hparams
      · exact hend
    rw [forall₂_challengesOf hpayload hschemes hplain hlast hlastParams,
      loopReads_iff hpayload hlast hend]
  · obtain ⟨hne, hnone⟩ := not_or.mp hend
    have hnone := not_not.mp hnone
    rcases eq_nil_or_append_singleton challenges with rfl | ⟨front, d, rfl⟩
    · exact absurd rfl hne
    rw [← List.cons_append, List.getLast?_concat] at hlast
    cases hlast
    have hfront : ∀ c ∈ challenge :: front, PayloadFor c := by
      intro c hc
      apply hpayload
      rw [← List.cons_append]
      exact List.mem_append_left _ hc
    rw [forall₂_challengesOf_concat hfront hschemes hplain hnone,
      ← loopReads_iff_of_endsEmpty hfront hnone]
    exact (and_iff_left fun _ => hempty.not.mp hparams).symm

/-- Challenges with tokens are given back, and every header has only characters that it may have and
the quoted strings that were written. -/
theorem headerRoundTrip_iff (challenges : List Challenge) :
    ((Representable challenges → ReadsBack challenges) ∧
        (∀ c ∈ (encodeWwwAuthenticateHeader challenges).toList, isHeaderChar c = true) ∧
          QuotedStringsHold challenges) ↔
      (Representable challenges → AllRead challenges) ∧ NoQuoteOutside challenges := by
  rw [and_iff_right (isHeaderChar_encode challenges), quotedStrings_iff]
  exact and_congr_left fun _ => forall_congr' fun h => readsBack_iff h

/-- A description that looks like another challenge. -/
def describedChallenge : Challenge where
  scheme := "Bearer"
  payload := ⟨[("error_description", .text "x, Bearer y")], by decide⟩

theorem not_readsBack_of_described : Representable [describedChallenge] ∧
    ¬ ReadsBack [describedChallenge] := by
  have htoken : IsToken "error_description" := ⟨by decide, List.all_eq_true.mp (by decide)⟩
  have htext : TextFor "error_description" "x, Bearer y" :=
    ⟨List.all_eq_true.mp (by decide), fun _ => by decide⟩
  have hrepresentable : Representable [describedChallenge] := by
    refine ⟨List.cons_ne_nil _ _, fun challenge hc => ?_, nofun, List.forall_mem_singleton.mpr ?_⟩
    · cases hc
      exact isToken_wellKnown "Bearer" List.mem_cons_self
    · exact List.forall_mem_singleton.mpr ⟨htoken, htext⟩
  refine ⟨hrepresentable, fun hback => ?_⟩
  have hbefore := ((readsBack_iff hrepresentable).mp hback).each [] describedChallenge [] rfl
  have hno := (hbefore.members _ List.mem_cons_self).2.2 "x, Bearer y" List.mem_cons_self
  have hmem : (", ".toList ++ "Bearer".toList, "Bearer") ∈ separators :=
    mem_separators List.mem_cons_self
  exact hno ⟨_, hmem, .inr ⟨['x'], ['y'], by decide⟩⟩

end IdentityCommon.Openid4vcUtils
