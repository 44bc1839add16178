import IdentityCommon.Openid4vcUtils.ChallengePayload

/-!
# Splitting a header into challenges

Where the expressions for the schemes find a separator in the text of encoded challenges.

## Main definitions

- `HasSeparator` — a text that looks like the beginning of another challenge
- `AfterScheme`, `IsWord` — what follows a scheme, and words of a header

## Main results

- `separatorAt_word`, `endsWithScheme_word` — the separators before a word
- `execAdditional_escape` — the separators in an escaped text
-/

namespace IdentityCommon.Openid4vcUtils

open Ecma Oauth2

/-! ## Words -/

theorem exists_separator {m : List Char × String} (h : m ∈ separators) :
    ∃ word ∈ wellKnownSchemes, m = (", ".toList ++ word.toList, word) ∨
    m = (',' :: word.toList, word) := by
  obtain ⟨word, hword, hm⟩ := List.mem_flatMap.mp h
  rcases List.mem_pair.mp hm with rfl | rfl
  · exact ⟨word, hword, .inl rfl⟩
  · exact ⟨word, hword, .inr rfl⟩

theorem mem_separators {word : String} (h : word ∈ wellKnownSchemes) :
    (", ".toList ++ word.toList, word) ∈ separators :=
  List.mem_flatMap.mpr ⟨word, h, List.mem_cons_self⟩

theorem isToken_wellKnown : ∀ word ∈ wellKnownSchemes, IsToken word := by
  intro word hword
  have hall : wellKnownSchemes.all (fun word => word ≠ "" && word.toList.all isTokenChar) =
      true := by decide
  have hthis := List.all_eq_true.mp hall word hword
  rw [Bool.and_eq_true, List.all_eq_true] at hthis
  exact ⟨of_decide_eq_true hthis.1, hthis.2⟩

/-- The character of a separator after its scheme. -/
def AfterScheme (c : Char) : Prop := c = ',' ∨ c = ' '

theorem AfterScheme.not_token {c : Char} (h : AfterScheme c) : isTokenChar c = false := by
  rcases h with rfl | rfl <;> decide

/-- A word of the characters of a token, that what follows does not continue. -/
structure IsWord (word next : List Char) : Prop where
  word : ∀ c ∈ word, isTokenChar c = true
  next : ∀ c ∈ next.head?, isTokenChar c = false

theorem IsWord.takeWhile {word next : List Char} (h : IsWord word next) :
    (word ++ next).takeWhile isTokenChar = word ∧ (word ++ next).dropWhile isTokenChar = next := by
  rw [List.takeWhile_append_of_pos h.word, List.dropWhile_append_of_pos h.word]
  cases next with
  | nil => exact ⟨List.append_nil _, rfl⟩
  | cons c next =>
    have hc := h.next c rfl
    rw [List.takeWhile_cons_of_neg (by simp [hc]), List.dropWhile_cons_of_neg (by simp [hc])]
    exact ⟨List.append_nil _, rfl⟩

theorem prefix_word {scheme word next : List Char} {c : Char}
    (hscheme : ∀ d ∈ scheme, isTokenChar d = true) (hc : AfterScheme c) (h : IsWord word next)
    (text : List Char) :
    scheme ++ c :: text <+: word ++ next ↔ scheme = word ∧ c :: text <+: next := by
  constructor
  · rintro ⟨rest, heq⟩
    have hscheme' : IsWord scheme (c :: (text ++ rest)) :=
      ⟨hscheme, fun d hd => Option.some.inj hd ▸ hc.not_token⟩
    rw [List.append_assoc, List.cons_append] at heq
    have hword := h.takeWhile
    rw [← heq, hscheme'.takeWhile.1, hscheme'.takeWhile.2] at hword
    exact ⟨hword.1, rest, hword.2⟩
  · rintro ⟨rfl, hnext⟩
    exact (List.prefix_append_right_inj _).mpr hnext

theorem singleton_prefix {c : Char} {text : List Char} : [c] <+: text ↔ text.head? = some c := by
  cases text with
  | nil => simp
  | cons d text =>
    rw [List.cons_prefix_cons, List.head?_cons, Option.some_inj, and_iff_left List.nil_prefix]
    exact eq_comm

/-- Only a comma begins a separator. -/
theorem separatorAt_of_ne {c : Char} (h : c ≠ ',') (text : List Char) :
    separatorAt (c :: text) = none := by
  refine List.find?_eq_none.mpr fun m hm => ?_
  have hno : ∀ d, ¬ m.1 ++ [d] <+: c :: text := by
    intro d hbegins
    obtain ⟨word, -, rfl | rfl⟩ := exists_separator hm
    · exact h (List.cons_prefix_cons.mp hbegins).1.symm
    · exact h (List.cons_prefix_cons.mp hbegins).1.symm
  simp [hno]

theorem separatorAt_nil : separatorAt [] = none := by decide

theorem separates_of_separatorAt {text : List Char} {m : List Char × String}
    (h : separatorAt text = some m) :
    m ∈ separators ∧ (m.1 ++ [','] <+: text ∨ m.1 ++ [' '] <+: text) := by
  refine ⟨List.mem_of_find?_eq_some h, ?_⟩
  have hfound := List.find?_some h
  exact of_decide_eq_true hfound

/-- A word after a comma and a space is a separator where it is a scheme, and a comma or a space
comes after it. -/
theorem separatorAt_word {word next : List Char} (h : IsWord word next) :
    separatorAt (", ".toList ++ (word ++ next)) =
      if String.ofList word ∈ wellKnownSchemes ∧
          (next.head? = some ',' ∨ next.head? = some ' ') then
        some (", ".toList ++ word, String.ofList word)
      else none := by
  have hbegins : ∀ scheme : String, IsToken scheme → ∀ c, AfterScheme c →
      ((", ".toList ++ scheme.toList) ++ [c] <+: ", ".toList ++ (word ++ next) ↔
        scheme.toList = word ∧ next.head? = some c) := by
    intro scheme hscheme c hc
    rw [List.append_assoc, List.prefix_append_right_inj, prefix_word hscheme.2 hc h,
      singleton_prefix]
  -- a separator without a space has another second character
  have hfirst : ∀ scheme : String, IsToken scheme →
      ∃ d rest, scheme.toList = d :: rest ∧ d ≠ ' ' := by
    intro scheme hscheme
    obtain ⟨d, rest, hcons⟩ :=
      List.exists_cons_of_ne_nil (fun hnil => hscheme.1 (String.toList_eq_nil_iff.mp hnil))
    exact ⟨d, rest, hcons,
      (isTokenChar.tokenChar (hscheme.2 d (hcons ▸ List.mem_cons_self))).ne.2.2.2.1⟩
  have hshort : ∀ scheme : String, IsToken scheme →
      ∀ c, ¬ (',' :: scheme.toList) ++ [c] <+: ", ".toList ++ (word ++ next) := by
    intro scheme hscheme c hc
    obtain ⟨d, rest, hcons, hd⟩ := hfirst scheme hscheme
    rw [hcons] at hc
    exact hd (List.cons_prefix_cons.mp (List.cons_prefix_cons.mp hc).2).1
  have hne : ∀ scheme : String, IsToken scheme → ',' :: scheme.toList ≠ ", ".toList ++ word := by
    intro scheme hscheme heq
    obtain ⟨d, rest, hcons, hd⟩ := hfirst scheme hscheme
    rw [hcons] at heq
    exact hd (List.cons.inj (List.cons.inj heq).2).1
  have hiff : ∀ m ∈ separators, (m.1 ++ [','] <+: ", ".toList ++ (word ++ next) ∨
      m.1 ++ [' '] <+: ", ".toList ++ (word ++ next)) ↔
      m = (", ".toList ++ word, String.ofList word) ∧
      (next.head? = some ',' ∨ next.head? = some ' ') := by
    intro m hm
    obtain ⟨scheme, hscheme, rfl | rfl⟩ := exists_separator hm
    · have htoken := isToken_wellKnown scheme hscheme
      rw [hbegins scheme htoken ',' (.inl rfl), hbegins scheme htoken ' ' (.inr rfl), ← and_or_left]
      refine and_congr_left fun _ => ⟨?_, fun heq => ?_⟩
      · rintro rfl
        rw [String.ofList_toList]
      · exact List.append_cancel_left (Prod.mk.inj heq).1
    · have htoken := isToken_wellKnown scheme hscheme
      refine iff_of_false (not_or.mpr ⟨hshort scheme htoken _, hshort scheme htoken _⟩) ?_
      rintro ⟨heq, -⟩
      exact hne scheme htoken (Prod.mk.inj heq).1
  cases hfind : separatorAt (", ".toList ++ (word ++ next)) with
  | none =>
    rw [if_neg]
    rintro ⟨hmem, hnext⟩
    have hin := mem_separators hmem
    rw [String.toList_ofList (l := word)] at hin
    exact List.find?_eq_none.mp hfind _ hin (decide_eq_true ((hiff _ hin).mpr ⟨rfl, hnext⟩))
  | some m =>
    obtain ⟨hin, hfound⟩ := separates_of_separatorAt hfind
    obtain ⟨rfl, hnext⟩ := (hiff m hin).mp hfound
    rw [if_pos]
    obtain ⟨scheme, hscheme, heq | heq⟩ := exists_separator hin
    · exact ⟨(Prod.mk.inj heq).2 ▸ hscheme, hnext⟩
    · exact ⟨(Prod.mk.inj heq).2 ▸ hscheme, hnext⟩

/-- What `endsWithSchemeRegex` finds: the last word, if it is a scheme after a comma and a space. -/
theorem endsWithScheme_word {word : List Char} (hword : ∀ c ∈ word, isTokenChar c = true)
    (text : List Char) :
    endsWithScheme (text ++ ' ' :: word) =
      if String.ofList word ∈ wellKnownSchemes ∧ text.getLast? = some ',' then
        some (text.dropLast, String.ofList word)
      else none := by
  have hreverse : IsWord word.reverse (' ' :: text.reverse) :=
    ⟨fun c hc => hword c (List.mem_reverse.mp hc), fun c hc => Option.some.inj hc ▸ by decide⟩
  have htext : (text ++ ' ' :: word).reverse = word.reverse ++ ' ' :: text.reverse := by simp
  have hlong : ∀ scheme : String, IsToken scheme →
      (", ".toList ++ scheme.toList <:+ text ++ ' ' :: word ↔
      scheme.toList = word ∧ text.getLast? = some ',') := by
    intro scheme hscheme
    have hrev : (", ".toList ++ scheme.toList).reverse = scheme.toList.reverse ++
        ' ' :: [','] := by simp
    rw [← List.reverse_prefix, htext, hrev,
      prefix_word (fun c hc => hscheme.2 c (List.mem_reverse.mp hc)) (.inr rfl) hreverse,
      List.reverse_inj, List.cons_prefix_cons, and_iff_right rfl, singleton_prefix,
        List.head?_reverse]
  have hshort : ∀ scheme : String, IsToken scheme →
      ¬ (',' :: scheme.toList <:+ text ++ ' ' :: word) := by
    intro scheme hscheme h
    have hrev : (',' :: scheme.toList).reverse = scheme.toList.reverse ++ ',' :: [] := by simp
    rw [← List.reverse_prefix, htext, hrev,
      prefix_word (fun c hc => hscheme.2 c (List.mem_reverse.mp hc)) (.inl rfl) hreverse,
      List.cons_prefix_cons] at h
    exact absurd h.2.1 (by decide)
  cases hfind : endsWithScheme (text ++ ' ' :: word) with
  | none =>
    rw [if_neg]
    rintro ⟨hmem, hlast⟩
    have hnone := List.findSome?_eq_none_iff.mp hfind _ (mem_separators hmem)
    rw [if_pos ((hlong _ (isToken_wellKnown _ hmem)).mpr ⟨String.toList_ofList, hlast⟩)] at hnone
    cases hnone
  | some r =>
    obtain ⟨m, hm, hr⟩ := List.exists_of_findSome?_eq_some hfind
    obtain ⟨scheme, hscheme, rfl | rfl⟩ := exists_separator hm
    · split_ifs at hr with hsuffix
      obtain ⟨rfl, hlast⟩ := (hlong scheme (isToken_wellKnown scheme hscheme)).mp hsuffix
      rw [String.ofList_toList, if_pos ⟨hscheme, hlast⟩, ← hr]
      obtain ⟨text, rfl⟩ := List.getLast?_eq_some_iff.mp hlast
      simp
    · split_ifs at hr with hsuffix
      exact absurd hsuffix (hshort scheme (isToken_wellKnown scheme hscheme))

theorem endsWithScheme_quote (text : List Char) : endsWithScheme (text ++ ['"']) = none := by
  have hlast : ∀ m ∈ separators, m.1.getLast? ≠ some '"' ∧ m.1 ≠ [] := by decide
  refine List.findSome?_eq_none_iff.mpr fun m hm => if_neg fun hsuffix => ?_
  obtain ⟨rest, hrest⟩ := hsuffix
  refine (hlast m hm).1 ?_
  have hconcat : (rest ++ m.1).getLast? = some '"' := by rw [hrest, List.getLast?_concat]
  rwa [List.getLast?_append_of_ne_nil _ (hlast m hm).2] at hconcat

/-! ## Passing over text -/

/-- A text without line terminators. -/
def Plain (text : List Char) : Prop := ∀ c ∈ text, isLineTerminator c = false

theorem Plain.left {t u : List Char} (h : Plain (t ++ u)) : Plain t :=
  fun c hc => h c (List.mem_append_left _ hc)

theorem Plain.right {t u : List Char} (h : Plain (t ++ u)) : Plain u :=
  fun c hc => h c (List.mem_append_right _ hc)

/-- A match with more text before it. -/
def SchemeMatch.prepend (text : List Char) (m : SchemeMatch) : SchemeMatch :=
  { m with before := text ++ m.before }

theorem prepend_append (t u : List Char) (o : Option SchemeMatch) :
    (o.map (SchemeMatch.prepend u)).map (SchemeMatch.prepend t) =
      o.map (SchemeMatch.prepend (t ++ u)) := by
  rw [Option.map_map]
  congr 1
  funext m
  simp [SchemeMatch.prepend]

/-- Without line terminators the match begins at the front. -/
theorem index_of_plain {text : List Char} (h : Plain text) {m : ℕ × SchemeMatch}
    (hm : execFrom text = some m) :
    m.1 = 0 := by
  induction text generalizing m with
  | nil => cases hm
  | cons c text ih =>
    rw [execFrom] at hm
    split at hm
    · cases hm
      rfl
    · obtain ⟨m', hm', rfl⟩ := Option.map_eq_some_iff.mp hm
      have hindex := ih (fun d hd => h d (List.mem_cons_of_mem _ hd)) hm'
      simp [hindex, h c List.mem_cons_self]

theorem execAdditional_cons {c : Char} {text : List Char} (h : Plain (c :: text))
    (hnone : separatorAt (c :: text) = none) :
    execAdditional (c :: text) = (execAdditional text).map (SchemeMatch.prepend [c]) := by
  rw [execAdditional, execAdditional, execFrom, hnone, Option.map_map]
  cases hexec : execFrom text with
  | none => rfl
  | some m =>
    have hindex := index_of_plain (fun d hd => h d (List.mem_cons_of_mem _ hd)) hexec
    simp [hindex, h c List.mem_cons_self, SchemeMatch.prepend]

theorem execAdditional_of_separatorAt {text separator : List Char} {scheme : String}
    (h : separatorAt text = some (separator, scheme)) :
    execAdditional text = some ⟨[], separator, scheme⟩ := by
  cases text with
  | nil => cases h.symm.trans separatorAt_nil
  | cons c text =>
    rw [execAdditional, execFrom, h]
    rfl

theorem execAdditional_nil : execAdditional [] = none := rfl

/-- A text without a comma is passed over. -/
theorem execAdditional_append {t next : List Char} (h : Plain (t ++ next)) (hcomma : ',' ∉ t) :
    execAdditional (t ++ next) = (execAdditional next).map (SchemeMatch.prepend t) := by
  induction t with
  | nil => exact Option.map_id'.symm
  | cons c t ih =>
    have hc : c ≠ ',' := fun hc => hcomma (hc ▸ List.mem_cons_self)
    have hrest := ih (fun d hd => h d (List.mem_cons_of_mem _ hd)) fun ht => hcomma
      (List.mem_cons_of_mem _ ht)
    rw [List.cons_append] at h ⊢
    rw [execAdditional_cons h (separatorAt_of_ne hc _), hrest, prepend_append]
    rfl

/-- A comma that begins no separator is passed over with the space after it. -/
theorem execAdditional_comma {next : List Char} (h : Plain (", ".toList ++ next))
    (hnone : separatorAt (", ".toList ++ next) = none) :
    execAdditional (", ".toList ++ next) = (execAdditional next).map
      (SchemeMatch.prepend ", ".toList) := by
  have hplain : Plain (',' :: ' ' :: next) := h
  have hspace : Plain (' ' :: next) := hplain.right (t := [','])
  have hat : separatorAt (',' :: ' ' :: next) = none := hnone
  show execAdditional (',' :: ' ' :: next) = _
  rw [execAdditional_cons hplain hat, execAdditional_cons hspace (separatorAt_of_ne (by decide) _),
    prepend_append]
  rfl

/-! ## Separators in a value -/

/-- A text that begins like the separator before another challenge. -/
def StartsSeparator (text : List Char) : Prop :=
  ∃ m ∈ separators, m.1 ++ [','] <+: text ∨ m.1 ++ [' '] <+: text

/-- A text that looks like the beginning of another challenge somewhere. -/
def HasSeparator (text : List Char) : Prop :=
  ∃ m ∈ separators, m.1 ++ [','] <:+: text ∨ m.1 ++ [' '] <:+: text

theorem not_hasSeparator_nil : ¬ HasSeparator [] := by
  rintro ⟨m, hm, h | h⟩
  · exact absurd (List.infix_nil.mp h) (by simp)
  · exact absurd (List.infix_nil.mp h) (by simp)

theorem hasSeparator_cons {c : Char} {text : List Char} :
    HasSeparator (c :: text) ↔ StartsSeparator (c :: text) ∨ HasSeparator text := by
  unfold HasSeparator StartsSeparator
  constructor
  · rintro ⟨m, hm, h | h⟩
    · rcases List.infix_cons_iff.mp h with h | h
      · exact .inl ⟨m, hm, .inl h⟩
      · exact .inr ⟨m, hm, .inl h⟩
    · rcases List.infix_cons_iff.mp h with h | h
      · exact .inl ⟨m, hm, .inr h⟩
      · exact .inr ⟨m, hm, .inr h⟩
  · rintro (⟨m, hm, h | h⟩ | ⟨m, hm, h | h⟩)
    · exact ⟨m, hm, .inl (List.infix_cons_iff.mpr (.inl h))⟩
    · exact ⟨m, hm, .inr (List.infix_cons_iff.mpr (.inl h))⟩
    · exact ⟨m, hm, .inl (List.infix_cons_iff.mpr (.inr h))⟩
    · exact ⟨m, hm, .inr (List.infix_cons_iff.mpr (.inr h))⟩

theorem comma_mem_of_hasSeparator {text : List Char} (h : HasSeparator text) : ',' ∈ text := by
  have hfirst : ∀ m ∈ separators, ',' ∈ m.1 := by decide
  obtain ⟨m, hm, h | h⟩ := h
  · exact h.mem (List.mem_append_left _ (hfirst m hm))
  · exact h.mem (List.mem_append_left _ (hfirst m hm))

theorem separatorAt_isSome {text : List Char} :
    (separatorAt text).isSome ↔ StartsSeparator text := by
  rw [separatorAt, List.find?_isSome]
  simp only [decide_eq_true_eq]
  rfl

/-- A text without quotes and backslashes begins an escaped text where it begins the text. -/
theorem prefix_escape {p : List Char} (hp : ∀ c ∈ p, c ≠ '"' ∧ c ≠ '\\') (t next : List Char) :
    p <+: escape t ++ '"' :: next ↔ p <+: t := by
  induction p generalizing t with
  | nil => simp
  | cons c p ih =>
    obtain ⟨⟨hquote, hbackslash⟩, hp⟩ := List.forall_mem_cons.mp hp
    cases t with
    | nil => exact iff_of_false (fun h => hquote (List.cons_prefix_cons.mp h).1) (by simp)
    | cons d t =>
      rw [escape_cons, List.append_assoc, List.cons_prefix_cons (a := c) (b := d)]
      by_cases hd : d = '\\'
      · subst hd
        exact iff_of_false (fun h => hbackslash (List.cons_prefix_cons.mp h).1)
          fun h => hbackslash h.1
      by_cases hq : d = '"'
      · subst hq
        exact iff_of_false (fun h => hbackslash (List.cons_prefix_cons.mp h).1) fun h => hquote h.1
      · rw [escapeChar_of_ne hd hq, List.singleton_append, List.cons_prefix_cons, ih hp]

theorem startsSeparator_escape (t next : List Char) :
    StartsSeparator (escape t ++ '"' :: next) ↔ StartsSeparator t := by
  have hplain : ∀ m ∈ separators, ∀ d ∈ [',', ' '], ∀ c ∈ m.1 ++ [d], c ≠ '"' ∧ c ≠ '\\' := by
    intro m hm d hd c hc
    have hall : separators.all (fun m => [',', ' '].all fun d => (m.1 ++ [d]).all fun c => c ≠
        '"' ∧ c ≠ '\\') = true := by
      decide
    exact of_decide_eq_true
      (List.all_eq_true.mp (List.all_eq_true.mp (List.all_eq_true.mp hall m hm) d hd) c hc)
  unfold StartsSeparator
  refine exists_congr fun m => and_congr_right fun hm => ?_
  rw [prefix_escape (hplain m hm ',' (by simp)), prefix_escape (hplain m hm ' ' (by simp))]

/-- An escaped text is passed over up to the first separator in it. -/
theorem execAdditional_escape (t : List Char) {next : List Char}
    (h : Plain (escape t ++ '"' :: next)) :
    (¬ HasSeparator t ∧
        execAdditional (escape t ++ '"' :: next) = (execAdditional ('"' :: next)).map
          (SchemeMatch.prepend (escape t))) ∨
      HasSeparator t ∧ ∃ t₁ t₂ separator scheme, t = t₁ ++ t₂ ∧
        execAdditional (escape t ++ '"' :: next) = some ⟨escape t₁, separator, scheme⟩ := by
  induction t with
  | nil => exact .inl ⟨not_hasSeparator_nil, Option.map_id'.symm⟩
  | cons c t ih =>
    by_cases hstarts : StartsSeparator (c :: t)
    · obtain ⟨⟨separator, scheme⟩, hat⟩ :=
        Option.isSome_iff_exists.mp
          (separatorAt_isSome.mpr ((startsSeparator_escape (c :: t) next).mpr hstarts))
      exact .inr ⟨hasSeparator_cons.mpr (.inl hstarts), [], c :: t, separator, scheme, rfl,
        execAdditional_of_separatorAt hat⟩
    · have hnone : separatorAt (escape (c :: t) ++ '"' :: next) = none := by
        rw [← Option.not_isSome_iff_eq_none, separatorAt_isSome, startsSeparator_escape]
        exact hstarts
      have hunit : execAdditional (escape (c :: t) ++ '"' :: next) =
          (execAdditional (escape t ++ '"' :: next)).map (SchemeMatch.prepend (escapeChar c)) := by
        rw [escape_cons, List.append_assoc] at h hnone ⊢
        by_cases hcomma : ',' ∈ escapeChar c
        · -- a comma stands for itself
          have hc : escapeChar c = [c] := by
            unfold escapeChar at hcomma ⊢
            split_ifs at hcomma ⊢ with hd hq
            · simp at hcomma
            · simp at hcomma
            · rfl
          rw [hc] at h hnone ⊢
          exact execAdditional_cons h hnone
        · exact execAdditional_append h hcomma
      have hplain : Plain (escape t ++ '"' :: next) := by
        rw [escape_cons, List.append_assoc] at h
        exact h.right
      rcases ih hplain with ⟨hno, hexec⟩ | ⟨hhas, t₁, t₂, separator, scheme, rfl, hexec⟩
      · refine .inl ⟨fun hhas => ?_, ?_⟩
        · rcases hasSeparator_cons.mp hhas with hhas | hhas
          · exact hstarts hhas
          · exact hno hhas
        · rw [hunit, hexec, prepend_append, escape_cons]
      · refine .inr ⟨hasSeparator_cons.mpr (.inr hhas), c :: t₁, t₂, separator, scheme, rfl, ?_⟩
        rw [hunit, hexec, escape_cons]
        rfl

end IdentityCommon.Openid4vcUtils
