import IdentityCommon.Openid4vcUtils.ChallengeSplit

/-!
# The loop over challenges

Where the loop of the parser cuts the text of encoded challenges, and what it makes of the parts.

## Main definitions

- `Passes` — parameters in which no separator is found
- `CutOff` — the text before a separator that was found in parameters
- `LoopReads` — challenges that the loop reads back

## Main results

- `execAdditional_payloadText` — parameters are passed over, or cut off
- `not_sameMembers_of_cutOff` — parameters that are cut off are not read back
- `forall₂_challengesFrom` — what the loop reads back
-/

namespace IdentityCommon.Openid4vcUtils

open Ecma AssocList Value Oauth2

/-! ## Texts of challenges -/

theorem intercalate_cons {α : Type} (sep l : List α) (ls : List (List α)) :
    sep.intercalate (l :: ls) = l ++ ls.flatMap (sep ++ ·) := by
  induction ls generalizing l with
  | nil => simp
  | cons l' ls ih => rw [List.intercalate_cons_cons, ih, List.flatMap_cons, List.append_assoc,
      List.append_assoc]

/-- Parameters after a scheme. -/
def payloadText : List Param → List Char
  | [] => []
  | p :: ps => ' ' :: (p.text ++ tailText ps)

/-- Challenges after the first one. -/
def following (challenges : List Challenge) : List Char :=
  challenges.flatMap fun challenge => ", ".toList ++
  (challenge.scheme.toList ++ payloadText challenge.params)

theorem encodeChallenge_eq {challenge : Challenge} (h : IsToken challenge.scheme) :
    encodeChallenge challenge = challenge.scheme.toList ++ payloadText challenge.params := by
  unfold encodeChallenge
  dsimp only
  rw [toHeaderText_token h]
  cases hparams : challenge.params with
  | nil => exact (List.append_nil _).symm
  | cons p ps =>
    rw [List.map_cons, if_neg (List.cons_ne_nil _ _), intercalate_cons, List.flatMap_map,
      List.append_assoc]
    rfl

theorem toList_encode {challenge : Challenge} {challenges : List Challenge}
    (h : ∀ c ∈ challenge :: challenges, IsToken c.scheme) :
    (encodeWwwAuthenticateHeader (challenge :: challenges)).toList =
      challenge.scheme.toList ++ (payloadText challenge.params ++ following challenges) := by
  obtain ⟨hfirst, hrest⟩ := List.forall_mem_cons.mp h
  have htail : (challenges.map encodeChallenge).flatMap (", ".toList ++ ·) =
      following challenges := by
    rw [List.flatMap_map]
    exact List.flatMap_congr fun c hc => congrArg (", ".toList ++ ·)
      (encodeChallenge_eq (hrest c hc))
  rw [encodeWwwAuthenticateHeader, String.toList_ofList, List.map_cons, intercalate_cons,
    encodeChallenge_eq hfirst, htail, List.append_assoc]

theorem following_cons (challenge : Challenge) (challenges : List Challenge) :
    following (challenge :: challenges) =
      ", ".toList ++ (challenge.scheme.toList ++
        (payloadText challenge.params ++ following challenges)) := by
  rw [following, List.flatMap_cons, ← following, List.append_assoc, List.append_assoc]

theorem afterParam_following (challenges : List Challenge) : AfterParam (following challenges) := by
  cases challenges with
  | nil => exact .nil
  | cons challenge challenges => exact .comma _

theorem bodyMatches_payloadText {ps : List Param} (hps : ∀ p ∈ ps, WellFormed p) :
    bodyMatches (payloadText ps) = ps.map paramMatch := by
  cases ps with
  | nil => exact bodyMatches_nil
  | cons p ps =>
    obtain ⟨hp, hrest⟩ := List.forall_mem_cons.mp hps
    have htail := bodyMatches_tailText hrest .nil
    have hafter := afterParam_tailText ps .nil
    rw [List.append_nil, bodyMatches_nil, List.append_nil] at htail
    rw [List.append_nil] at hafter
    rw [payloadText, bodyMatches_skip (by decide) (by decide), bodyMatches_param hp hafter, htail]
    rfl

/-! ## Passing over parameters -/

/-- No separator is found in the value. -/
def TextPasses (p : Param) : Prop := ∀ t, p.quoted = some (escape t) → ¬ HasSeparator t

/-- The comma before the parameter is not read as a separator. -/
def NamePasses (p : Param) : Prop := p.quoted = none → String.ofList p.name ∉ wellKnownSchemes

/-- No separator is found in parameters after the first one. After the last name, only if there is
`more`. -/
def TailPasses (more : Prop) : List Param → Prop
  | [] => True
  | p :: ps => TextPasses p ∧ (NamePasses p ∨ ¬ more ∧ ps = []) ∧ TailPasses more ps

/-- No separator is found in the parameters. -/
def Passes (more : Prop) : List Param → Prop
  | [] => True
  | p :: ps => TextPasses p ∧ TailPasses more ps

/-- A text before a separator that was found in parameters: before a name, or in a value. -/
inductive CutOff (ps : List Param) (before : List Char) : Prop
  | name (ps₁ ps₂ : List Param) (p : Param) (split : ps = ps₁ ++ p :: ps₂)
      (unquoted : p.quoted = none) (cut : bodyMatches before = ps₁.map paramMatch)
  | value (ps₁ ps₂ : List Param) (p : Param) (t t₁ : List Char) (split : ps = ps₁ ++ p :: ps₂)
      (passed : ∀ q ∈ ps₁, TextPasses q) (quoted : p.quoted = some (escape t))
        (separator : HasSeparator t)
      (cut : bodyMatches before = ps₁.map paramMatch ++ (String.ofList p.name, none) ::
        bodyMatches (escape t₁))

theorem escape_injective {t u : List Char} (h : escape t = escape u) : t = u := by
  have hunescape := congrArg unescape h
  rwa [unescape_escape, unescape_escape] at hunescape

theorem CutOff.congr {ps : List Param} {t u : List Char} (h : CutOff ps t)
    (heq : bodyMatches u = bodyMatches t) :
    CutOff ps u := by
  cases h with
  | name ps₁ ps₂ p split unquoted cut => exact .name ps₁ ps₂ p split unquoted (heq.trans cut)
  | value ps₁ ps₂ p t t₁ split passed quoted separator cut =>
    exact .value ps₁ ps₂ p t t₁ split passed quoted separator (heq.trans cut)

theorem CutOff.cons {p : Param} (hp : WellFormed p) (htext : TextPasses p) {ps : List Param}
    {before : List Char} (hafter : AfterParam before) (h : CutOff ps before) :
    CutOff (p :: ps) (p.text ++ before) := by
  have hmatches := bodyMatches_param hp hafter
  cases h with
  | name ps₁ ps₂ q split unquoted cut =>
    refine .name (p :: ps₁) ps₂ q (congrArg _ split) unquoted ?_
    rw [hmatches, cut]
    rfl
  | value ps₁ ps₂ q t t₁ split passed quoted separator cut =>
    refine .value (p :: ps₁) ps₂ q t t₁ (congrArg _ split)
      (List.forall_mem_cons.mpr ⟨htext, passed⟩) quoted separator ?_
    rw [hmatches, cut]
    rfl

/-- From its name on, a parameter is passed over, or cut off in its value. -/
theorem execAdditional_param {p : Param} (hp : WellFormed p) {next : List Char}
    (h : Plain (p.text ++ next)) :
    (TextPasses p ∧ execAdditional (p.text ++ next) = (execAdditional next).map
      (SchemeMatch.prepend p.text)) ∨
      ¬ TextPasses p ∧ ∃ m, execAdditional (p.text ++ next) = some m ∧
      ∀ ps, CutOff (p :: ps) m.before := by
  have hcomma : ',' ∉ p.name := fun hmem => (isTokenChar.tokenChar (hp.name _ hmem)).ne.2.1 rfl
  cases hq : p.quoted with
  | none =>
    have htext : p.text = p.name := by
      rw [Param.text, hq]
      exact List.append_nil _
    rw [htext] at h ⊢
    refine .inl ⟨fun t ht => ?_, execAdditional_append h hcomma⟩
    rw [hq] at ht
    cases ht
  | some quoted =>
    obtain ⟨t, rfl⟩ := hp.quoted quoted hq
    have htext : p.text = (p.name ++ ['=', '"']) ++ (escape t ++ ['"']) := by
      rw [Param.text, hq]
      simp
    have happend : p.text ++ next = (p.name ++ ['=', '"']) ++ (escape t ++ '"' :: next) := by
      rw [htext]
      simp
    rw [happend] at h ⊢
    have hopen := execAdditional_append h (by simp [hcomma])
    have hclose : execAdditional ('"' :: next) = (execAdditional next).map
        (SchemeMatch.prepend ['"']) :=
      execAdditional_append (t := ['"']) h.right.right (by decide)
    rcases execAdditional_escape t h.right with ⟨hno, hexec⟩ | ⟨hhas, t₁, t₂, separator,
      scheme, rfl, hexec⟩
    · refine .inl ⟨fun u hu => ?_, ?_⟩
      · rw [hq] at hu
        rwa [← escape_injective (Option.some.inj hu)]
      · rw [hopen, hexec, hclose, prepend_append, prepend_append, htext, ← List.append_assoc]
    · refine .inr ⟨fun hpasses => hpasses _ hq hhas, _, by rw [hopen, hexec]; rfl, fun ps => ?_⟩
      have hpassed : ∀ q ∈ ([] : List Param), TextPasses q := fun q hq => absurd hq List.not_mem_nil
      refine .value [] ps p (t₁ ++ t₂) t₁ rfl hpassed hq hhas ?_
      show bodyMatches ((p.name ++ ['=', '"']) ++ escape t₁) = _
      rw [List.append_assoc]
      exact bodyMatches_cut hp.ne hp.name t₁

theorem isWord_name {p : Param} (hp : WellFormed p) {next : List Char} (h : AfterParam next) :
    ∃ text, p.text ++ next = p.name ++ text ∧ IsWord p.name text ∧
      ((text.head? = some ',' ∨ text.head? = some ' ') ↔ p.quoted = none ∧ next ≠ []) := by
  cases hq : p.quoted with
  | none =>
    refine ⟨next, by rw [Param.text, hq]; simp, ⟨hp.name, fun c hc => ?_⟩, ?_⟩
    · cases h with
      | nil => cases hc
      | comma text => exact Option.some.inj hc ▸ by decide
    · cases h <;> simp
  | some quoted =>
    refine ⟨'=' :: '"' :: (quoted ++ '"' :: next), by rw [Param.text, hq]; simp,
      ⟨hp.name, fun c hc => ?_⟩, by simp⟩
    exact Option.some.inj hc ▸ by decide

/-- Parameters after the first one are passed over, or cut off at the first separator. -/
theorem execAdditional_tailText {ps : List Param} (hps : ∀ p ∈ ps, WellFormed p) {next : List Char}
    (hnext : AfterParam next) (h : Plain (tailText ps ++ next)) :
    (TailPasses (next ≠ []) ps ∧
        execAdditional (tailText ps ++ next) = (execAdditional next).map
          (SchemeMatch.prepend (tailText ps))) ∨
      ¬ TailPasses (next ≠ []) ps ∧
        ∃ m, execAdditional (tailText ps ++ next) = some m ∧ AfterParam m.before ∧
        CutOff ps m.before := by
  induction ps with
  | nil => exact .inl ⟨trivial, Option.map_id'.symm⟩
  | cons p ps ih =>
    obtain ⟨hp, hrest⟩ := List.forall_mem_cons.mp hps
    have htail : tailText (p :: ps) = ", ".toList ++ (p.text ++ tailText ps) := by
      rw [tailText, List.flatMap_cons, List.append_assoc]
      rfl
    rw [htail, List.append_assoc, List.append_assoc] at h ⊢
    have hafter := afterParam_tailText ps hnext
    have hnil : tailText ps ++ next ≠ [] ↔ ¬ (¬ next ≠ [] ∧ ps = []) := by
      cases ps with
      | nil => simp [tailText]
      | cons q qs => simp [tailText]
    obtain ⟨text, htext, hword, hhead⟩ := isWord_name hp hafter
    have hat : separatorAt (", ".toList ++ (p.text ++ (tailText ps ++ next))) = _ :=
      (congrArg (fun t => separatorAt (", ".toList ++ t)) htext).trans (separatorAt_word hword)
    by_cases hname : NamePasses p ∨ ¬ next ≠ [] ∧ ps = []
    · rw [if_neg] at hat
      swap
      · rintro ⟨hmem, hfollows⟩
        obtain ⟨hq, hne⟩ := hhead.mp hfollows
        rcases hname with hname | hname
        · exact hname hq hmem
        · exact hnil.mp hne hname
      rw [execAdditional_comma h hat]
      rcases execAdditional_param hp h.right with ⟨hpasses, hexec⟩ | ⟨hcut, m, hexec, hbefore⟩
      · rcases ih hrest h.right.right with ⟨hall, hexec'⟩ | ⟨hall, m, hexec', hafter', hbefore⟩
        · refine .inl ⟨⟨hpasses, hname, hall⟩, ?_⟩
          rw [hexec, hexec', prepend_append, prepend_append, List.append_assoc]
        · refine .inr ⟨fun hall' => hall hall'.2.2, _, by rw [hexec, hexec']; rfl, .comma _, ?_⟩
          exact (CutOff.cons hp hpasses hafter' hbefore).congr (bodyMatches_separator _)
      · exact .inr ⟨fun hall => hcut hall.1, _, by rw [hexec]; rfl, .comma _,
          (hbefore ps).congr (bodyMatches_separator _)⟩
    · -- the name is a scheme that is followed by a comma
      obtain ⟨hno, hfollows⟩ := not_or.mp hname
      unfold NamePasses at hno
      push Not at hno
      rw [if_pos ⟨hno.2, hhead.mpr ⟨hno.1, hnil.mpr hfollows⟩⟩] at hat
      exact .inr ⟨fun hall => hname hall.2.1, _, execAdditional_of_separatorAt hat, .nil,
        .name [] ps p rfl hno.1 bodyMatches_nil⟩

theorem execAdditional_payloadText {ps : List Param} (hps : ∀ p ∈ ps, WellFormed p)
    {next : List Char} (hnext : AfterParam next) (h : Plain (payloadText ps ++ next)) :
    (Passes (next ≠ []) ps ∧
        execAdditional (payloadText ps ++ next) = (execAdditional next).map
          (SchemeMatch.prepend (payloadText ps))) ∨
      ¬ Passes (next ≠ []) ps ∧ ∃ m, execAdditional (payloadText ps ++ next) = some m ∧
      CutOff ps m.before := by
  cases ps with
  | nil => exact .inl ⟨trivial, Option.map_id'.symm⟩
  | cons p ps =>
    obtain ⟨hp, hrest⟩ := List.forall_mem_cons.mp hps
    have htext : payloadText (p :: ps) ++ next = [' '] ++ (p.text ++ (tailText ps ++ next)) := by
      rw [payloadText, List.cons_append, List.append_assoc]
      rfl
    have hskip : ∀ text, bodyMatches ([' '] ++ text) = bodyMatches text :=
      bodyMatches_skip (by decide) (by decide)
    rw [htext] at h ⊢
    rw [execAdditional_append h (by decide)]
    rcases execAdditional_param hp h.right with ⟨hpasses, hexec⟩ | ⟨hcut, m, hexec, hbefore⟩
    · rcases execAdditional_tailText hrest hnext h.right.right with ⟨hall, hexec'⟩ | ⟨hall, m,
        hexec', hafter, hbefore⟩
      · refine .inl ⟨⟨hpasses, hall⟩, ?_⟩
        rw [hexec, hexec', prepend_append, prepend_append]
        rfl
      · refine .inr ⟨fun hall' => hall hall'.2, _, by rw [hexec, hexec']; rfl, ?_⟩
        exact (CutOff.cons hp hpasses hafter hbefore).congr (hskip _)
    · exact .inr ⟨fun hall => hcut hall.1, _, by rw [hexec]; rfl, (hbefore ps).congr (hskip _)⟩

/-! ## Parameters that are cut off -/

theorem wellFormed_params {challenge : Challenge} (h : PayloadFor challenge) :
    ∀ p ∈ challenge.params, WellFormed p := by
  intro p hp
  obtain ⟨m, hm, hp⟩ := mem_params.mp hp
  obtain ⟨hname, hquoted⟩ := mem_paramsOf hp
  have htoken := (h m hm).1
  rw [toHeaderText_token htoken] at hname
  refine ⟨?_, ?_, fun quoted hq => ?_⟩
  · rw [hname]
    exact fun hnil => htoken.1 (String.toList_eq_nil_iff.mp hnil)
  · rw [hname]
    exact htoken.2
  · obtain ⟨t, ht, -⟩ := hquoted quoted hq
    exact ⟨t, ht⟩

/-- The texts of a member. -/
def PayloadValue.strings : PayloadValue → List String
  | .text s => [s]
  | .texts ss => ss
  | _ => []

/-- A member has one parameter without a value, or one for each of its texts. -/
theorem paramsOf_cases {key : String} {value : PayloadValue} (h : ValueFor key value) :
    (paramsOf key value = [⟨toHeaderText key.toList, none⟩] ∧ (value = .null ∨ value = .text "")) ∨
      paramsOf key value =
        value.strings.map (fun s => ⟨toHeaderText key.toList, some (escape s.toList)⟩) ∧
        value ≠ .text "" ∧ value ≠ .null := by
  cases value with
  | undefined => exact h.elim
  | null => exact .inl ⟨rfl, .inl rfl⟩
  | text s =>
    by_cases hs : s = ""
    · subst hs
      exact .inl ⟨rfl, .inr rfl⟩
    · refine .inr ⟨?_, fun heq => hs (PayloadValue.text.inj heq), ?_⟩
      · rw [paramsOf, if_neg hs, encodeText_eq h]
        rfl
      · intro heq
        cases heq
  | texts ss =>
    refine .inr ⟨List.map_congr_left fun s hs => ?_, ?_, ?_⟩
    · rw [encodeText_eq (h.2 s hs)]
    · intro heq
      cases heq
    · intro heq
      cases heq

theorem strings_toValue {P : String → Prop} {value : PayloadValue}
    (h : ParsedPayload.Strings P value.toValue) :
    ∀ s ∈ value.strings, P s := by
  cases value with
  | undefined => nofun
  | null => nofun
  | text s => exact List.forall_mem_singleton.mpr h
  | texts ss => exact fun s hs => h (str s) (List.mem_map_of_mem hs)

theorem comma_not_mem_sanitize {value : List Char} (h : ∀ c ∈ value, isValueChar c = true) :
    ',' ∉ (sanitize value).toList := by
  have hhead : value.head? ≠ some '"' := by
    intro hquote
    have hchar := h '"' (List.mem_of_head? hquote)
    exact absurd hchar (by decide)
  rw [sanitize, if_neg hhead, trim, String.toList_ofList]
  intro hmem
  have hmem := (List.dropWhile_suffix _).mem (List.mem_reverse.mp hmem)
  rw [List.mem_reverse, String.toList_ofList] at hmem
  exact absurd (h ',' ((List.dropWhile_suffix _).mem hmem)) (by decide)

theorem sanitize_param {p : Param} (hp : WellFormed p) (h : TextPasses p) {newValue : List Char}
    (hnew : (paramMatch p).2 = some newValue) : ¬ HasSeparator (sanitize newValue).toList := by
  obtain ⟨quoted, hq, rfl⟩ := Option.map_eq_some_iff.mp hnew
  obtain ⟨t, rfl⟩ := hp.quoted quoted hq
  rw [sanitize_quoted, String.toList_ofList]
  exact h t hq

/-- Parameters that are cut off are not read back: a member without a value is lost with its name,
and a text with a separator is in no value. -/
theorem not_sameMembers_of_cutOff {challenge : Challenge} (h : PayloadFor challenge)
    {scheme : String} {before : List Char} (hcut : CutOff challenge.params before) :
    ¬ SameMembers (parsePayload scheme before).payload challenge := by
  intro hsame
  have hnodup := challenge.payload.nodup
  have htoken : ∀ m ∈ challenge.payload.entries, IsToken m.1 := fun m hm => (h m hm).1
  have hwf := wellFormed_params h
  have hread : ∀ m ∈ challenge.payload.entries,
      ((bodyMatches before).foldl ParsedPayload.assign {}).members.lookup m.1 =
        some m.2.toValue := by
    intro m hm
    have hkey := hsame m.1
    rwa [OrderedMap.get_eq_some.mpr hm] at hkey
  cases hcut with
  | name ps₁ ps₂ p split unquoted cut =>
    have hp : p ∈ challenge.params := split ▸ List.mem_append_right _ List.mem_cons_self
    obtain ⟨m, hm, hp⟩ := mem_params.mp hp
    have hname : (paramMatch p).1 = m.1 := by
      rw [paramMatch, (mem_paramsOf hp).1, toHeaderText_token (htoken m hm), String.ofList_toList]
    have hsingle : paramsOf m.1 m.2 = [⟨toHeaderText m.1.toList, none⟩] := by
      rcases paramsOf_cases (h m hm).2 with ⟨heq, -⟩ | ⟨heq, -⟩
      · exact heq
      · rw [heq] at hp
        obtain ⟨s, -, rfl⟩ := List.mem_map.mp hp
        cases unquoted
    -- one parameter has the name, and it comes after those that were read
    have hfilter := filter_flatMap_params hnodup htoken m.1
    rw [lookup_of_mem hnodup hm, Option.map_some, Option.getD_some, matchedValues, hsingle,
      show challenge.payload.entries.flatMap (fun m => paramsOf m.1 m.2) = _ from split,
        List.map_append, List.map_cons,
      List.filter_append, List.filter_cons_of_pos (by simp [hname])] at hfilter
    have hlength := congrArg List.length hfilter
    simp only [List.length_map, List.length_append, List.length_cons, List.length_nil] at hlength
    have hnone : (ps₁.map paramMatch).filter (fun x => x.1 = m.1) = [] :=
      List.length_eq_zero_iff.mp (by omega)
    have hother : ∀ x ∈ ps₁.map paramMatch, x.1 ≠ m.1 := fun x hx => of_decide_eq_false (by
      simpa using List.filter_eq_nil_iff.mp hnone x hx)
    have hlookup := hread m hm
    rw [cut, ParsedPayload.lookup_foldl_of_not_mem hother] at hlookup
    cases hlookup
  | value ps₁ ps₂ p t t₁ split passed quoted separator cut =>
    have hp : p ∈ challenge.params := split ▸ List.mem_append_right _ List.mem_cons_self
    obtain ⟨m, hm, hp⟩ := mem_params.mp hp
    have htext : ∃ s ∈ m.2.strings, s.toList = t := by
      rcases paramsOf_cases (h m hm).2 with ⟨heq, -⟩ | ⟨heq, -⟩
      · rw [heq] at hp
        rw [List.mem_singleton.mp hp] at quoted
        cases quoted
      · rw [heq] at hp
        obtain ⟨s, hs, rfl⟩ := List.mem_map.mp hp
        exact ⟨s, hs, escape_injective (Option.some.inj quoted)⟩
    have hall : ParsedPayload.AllStrings (fun s => ¬ HasSeparator s.toList)
        ((bodyMatches before).foldl ParsedPayload.assign {}) := by
      refine ParsedPayload.AllStrings.foldl (fun x hx newValue hnew => ?_) (.empty _)
      rw [cut, List.mem_append, List.mem_cons] at hx
      rcases hx with hx | rfl | hx
      · obtain ⟨q, hq, rfl⟩ := List.mem_map.mp hx
        exact sanitize_param (hwf q (split ▸ List.mem_append_left _ hq)) (passed q hq) hnew
      · cases hnew
      · -- what is read of the value that is cut off has no comma
        have hchars := isValueChar_of_mem (not_opening_escape t₁) hx hnew
        exact fun hhas => comma_not_mem_sanitize hchars (comma_mem_of_hasSeparator hhas)
    obtain ⟨s, hs, rfl⟩ := htext
    exact strings_toValue (hall.member m.1 m.2.toValue (hread m hm)) s hs separator

/-! ## The loop -/

theorem challengesFrom_of_some {scheme : String} {value : List Char} {m : SchemeMatch}
    (h : execAdditional value = some m) :
    challengesFrom scheme value =
      parsePayload scheme m.before :: challengesFrom m.scheme
        (value.drop (m.before.length + m.separator.length)) := by
  rw [challengesFrom]
  split
  case h_1 m' hm =>
    rw [h] at hm
    cases hm
    rfl
  case h_2 hm =>
    rw [h] at hm
    cases hm

theorem challengesFrom_of_none {scheme : String} {value : List Char}
    (h : execAdditional value = none) :
    challengesFrom scheme value = [parsePayload scheme value] := by
  rw [challengesFrom]
  split
  case h_1 m hm =>
    rw [h] at hm
    cases hm
  case h_2 => rfl

/-- The scheme of the first challenge is the one that the loop starts with. -/
theorem exists_challengesFrom (scheme : String) (value : List Char) :
    ∃ parsed rest, challengesFrom scheme value = parsed :: rest ∧ parsed.scheme = scheme := by
  cases h : execAdditional value with
  | some m => exact ⟨_, _, challengesFrom_of_some h, rfl⟩
  | none => exact ⟨_, _, challengesFrom_of_none h, rfl⟩

/-- No member has a name that is inherited, or an empty first text. -/
def MembersRead (challenge : Challenge) : Prop :=
  ∀ m ∈ challenge.payload.entries, inherited m.1 = undefined ∧ FirstKept m.2

/-- The challenges that the loop reads back, of a text that goes on after the first scheme. -/
def LoopReads : Challenge → List Challenge → Prop
  | challenge, [] => Passes False challenge.params ∧ MembersRead challenge
  | challenge, next :: challenges =>
    -- a scheme at the end of the text is not followed by a comma or a space
    (next.params = [] → challenges ≠ []) ∧ Passes True challenge.params ∧ MembersRead challenge ∧
    LoopReads next challenges

theorem following_ne_nil {challenges : List Challenge} :
    following challenges ≠ [] ↔ challenges ≠ [] := by
  cases challenges with
  | nil => exact iff_of_false (fun h => h rfl) fun h => h rfl
  | cons challenge challenges =>
      exact iff_of_true (by rw [following_cons]; exact List.cons_ne_nil _ _) (List.cons_ne_nil _ _)

theorem isReadAs_payloadText {challenge : Challenge} (h : PayloadFor challenge) :
    IsReadAs (parsePayload challenge.scheme (payloadText challenge.params)) challenge ↔
      MembersRead challenge :=
  (and_iff_right rfl).trans (sameMembers_iff h (bodyMatches_payloadText (wellFormed_params h)))

/-- What stands after the scheme of a challenge. -/
theorem head_payloadText (ps : List Param) (challenges : List Challenge) :
    (payloadText ps ++ following challenges = [] ∧ ps = [] ∧ challenges = []) ∨
      ((payloadText ps ++ following challenges).head? = some ',' ∨
        (payloadText ps ++ following challenges).head? = some ' ') ∧
        (ps = [] → challenges ≠ []) := by
  cases ps with
  | nil =>
    cases challenges with
    | nil => exact .inl ⟨rfl, rfl, rfl⟩
    | cons challenge challenges => exact .inr ⟨.inl rfl, fun _ => List.cons_ne_nil _ _⟩
  | cons p ps => exact .inr ⟨.inr rfl, nofun⟩

theorem isWord_scheme {challenge : Challenge} (h : challenge.scheme ∈ wellKnownSchemes)
    (challenges : List Challenge) :
    IsWord challenge.scheme.toList (payloadText challenge.params ++ following challenges) := by
  refine ⟨(isToken_wellKnown _ h).2, fun c hc => ?_⟩
  rcases head_payloadText challenge.params challenges with ⟨hnil, -⟩ | ⟨hhead, -⟩
  · rw [hnil] at hc
    cases hc
  · apply AfterScheme.not_token
    rcases hhead with hhead | hhead
    · exact .inl (Option.some.inj ((Option.mem_def.mp hc).symm.trans hhead))
    · exact .inr (Option.some.inj ((Option.mem_def.mp hc).symm.trans hhead))

/-- The separator before a challenge is found, unless the text ends with it. -/
theorem execAdditional_following {challenge : Challenge} (h : challenge.scheme ∈ wellKnownSchemes)
    {challenges : List Challenge} (hplain : Plain (following (challenge :: challenges))) :
    execAdditional (following (challenge :: challenges)) =
      if challenge.params = [] ∧ challenges = [] then none
      else some ⟨[], ", ".toList ++ challenge.scheme.toList, challenge.scheme⟩ := by
  rw [following_cons] at hplain ⊢
  have hword := isWord_scheme h challenges
  have hat := separatorAt_word hword
  rw [String.ofList_toList] at hat
  rcases head_payloadText challenge.params challenges with ⟨hnil, hparams, hrest⟩ | ⟨hhead, hnext⟩
  · have hcomma : ',' ∉ challenge.scheme.toList :=
      fun hmem => (isTokenChar.tokenChar (hword.word _ hmem)).ne.2.1 rfl
    rw [hnil] at hat hplain ⊢
    rw [if_neg (by simp)] at hat
    rw [if_pos ⟨hparams, hrest⟩, execAdditional_comma hplain hat,
      execAdditional_append hplain.right hcomma, execAdditional_nil]
    rfl
  · rw [if_pos ⟨h, hhead⟩] at hat
    rw [if_neg fun hboth => hnext hboth.1 hboth.2]
    exact execAdditional_of_separatorAt hat

theorem forall₂_challengesFrom {challenge : Challenge} {challenges : List Challenge}
    (hpayload : ∀ c ∈ challenge :: challenges, PayloadFor c)
    (hscheme : ∀ c ∈ challenges, c.scheme ∈ wellKnownSchemes)
    (hplain : Plain (payloadText challenge.params ++ following challenges)) :
    List.Forall₂ IsReadAs
      (challengesFrom challenge.scheme (payloadText challenge.params ++ following challenges))
        (challenge :: challenges) ↔
      LoopReads challenge challenges := by
  induction challenges generalizing challenge with
  | nil =>
    have hp := hpayload challenge List.mem_cons_self
    have hnil : following [] = [] := rfl
    have hfalse : (([] : List Char) ≠ []) = False := propext (iff_of_false (fun h => h rfl) id)
    rw [hnil] at hplain ⊢
    have hexec := execAdditional_payloadText (wellFormed_params hp) .nil hplain
    rw [hfalse] at hexec
    rcases hexec with ⟨hpasses, hexec⟩ | ⟨hpasses, m, hexec, hcut⟩
    · rw [challengesFrom_of_none hexec, List.append_nil, List.forall₂_cons, isReadAs_payloadText hp,
        LoopReads, and_iff_right hpasses]
      exact and_iff_left .nil
    · rw [challengesFrom_of_some hexec, List.forall₂_cons]
      exact iff_of_false (fun h => not_sameMembers_of_cutOff hp hcut h.1.2) fun h => hpasses h.1
  | cons next challenges ih =>
    obtain ⟨hp, hrest⟩ := List.forall_mem_cons.mp hpayload
    obtain ⟨hnext, hschemes⟩ := List.forall_mem_cons.mp hscheme
    have htrue : (following (next :: challenges) ≠ []) = True :=
      propext (iff_of_true (following_ne_nil.mpr (List.cons_ne_nil _ _)) trivial)
    have hexec := execAdditional_payloadText (wellFormed_params hp)
      (afterParam_following (next :: challenges)) hplain
    rw [htrue, execAdditional_following hnext hplain.right] at hexec
    rcases hexec with ⟨hpasses, hexec⟩ | ⟨hpasses, m, hexec, hcut⟩
    · by_cases hend : next.params = [] ∧ challenges = []
      · -- the last scheme is not seen, and one challenge too few is read
        rw [if_pos hend] at hexec
        rw [challengesFrom_of_none hexec, List.forall₂_cons]
        exact iff_of_false (fun h => nomatch h.2) fun h => h.1 hend.1 hend.2
      · rw [if_neg hend] at hexec
        have hdrop : (payloadText challenge.params ++ following (next :: challenges)).drop
            ((payloadText challenge.params ++ []).length +
              (", ".toList ++ next.scheme.toList).length) =
            payloadText next.params ++ following challenges := by
          rw [List.append_nil, List.drop_length_add_append, following_cons, ← List.append_assoc,
            List.drop_left]
        have hafter : Plain (payloadText next.params ++ following challenges) := by
          have hright := hplain.right
          rw [following_cons] at hright
          exact hright.right.right
        rw [challengesFrom_of_some hexec]
        dsimp only [SchemeMatch.prepend]
        rw [hdrop, List.append_nil, List.forall₂_cons, isReadAs_payloadText hp,
          ih hrest hschemes hafter, LoopReads, and_iff_right hpasses,
            and_iff_right fun hparams hnil => hend ⟨hparams, hnil⟩]
    · rw [challengesFrom_of_some hexec, List.forall₂_cons]
      exact iff_of_false (fun h => not_sameMembers_of_cutOff hp hcut h.1.2) fun h => hpasses h.2.1

end IdentityCommon.Openid4vcUtils
