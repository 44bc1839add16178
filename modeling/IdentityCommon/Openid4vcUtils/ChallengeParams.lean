import IdentityCommon.Openid4vcUtils.HeaderText
import Mathlib.Data.List.TakeWhile

/-!
# Parameters that are read back

What the expression for parameters matches in the text of encoded parameters, and what becomes of
the values.

## Main definitions

- `isTokenChar` — the characters of a token
- `WellFormed` — a parameter with a token as its name and an escaped text in its quotes

## Main results

- `bodyMatches_tailText` — the matches in a list of parameters
- `bodyMatches_cut`, `isValueChar_of_mem` — the matches in the text of a value that is not closed
-/

namespace IdentityCommon.Openid4vcUtils

open Oauth2

/-! ## Characters -/

/-- `tchar`. -/
def isTokenChar (c : Char) : Bool :=
  c.isAlphanum || c ∈ ['!', '#', '$', '%', '&', '\u0027', '*', '+', '-', '.', '^', '_',
    '\u0060', '|', '~']

/-- What the classes of the expressions say of the characters of a token. -/
structure TokenChar (c : Char) : Prop where
  name : isNameChar c = true
  header : isHeaderChar c = true
  space : isWhitespace c = false
  terminator : isLineTerminator c = false
  ne : c ≠ '=' ∧ c ≠ ',' ∧ c ≠ '"' ∧ c ≠ ' ' ∧ c ≠ '\\'

theorem toNat_lt_of_isTokenChar {c : Char} (h : isTokenChar c = true) : c.toNat < 128 := by
  -- the letters and the digits are intervals of codes
  have hclass {high : UInt32} (hle : c.val ≤ high) (hhigh : high.toNat < 128) : c.toNat < 128 :=
    lt_of_le_of_lt (UInt32.le_iff_toNat_le.mp hle) hhigh
  rcases (Bool.or_eq_true _ _).mp h with h | h
  · rcases (Bool.or_eq_true _ _).mp h with h | h
    · rcases (Bool.or_eq_true _ _).mp h with h | h
      · have hupper : 'A'.val ≤ c.val ∧ c.val ≤ 'Z'.val := of_decide_eq_true h
        exact hclass hupper.2 (by decide)
      · have hlower : c.val ≤ 'z'.val := of_decide_eq_true ((Bool.and_eq_true _ _).mp h).2
        exact hclass hlower (by decide)
    · have hdigit : c.val ≤ '9'.val := of_decide_eq_true ((Bool.and_eq_true _ _).mp h).2
      exact hclass hdigit (by decide)
  · have hlist := of_decide_eq_true h
    exact of_decide_eq_true ((List.all_eq_true (p := fun d => decide (d.val.toNat < 128))).mp
      (by decide) c hlist)

theorem isTokenChar.tokenChar {c : Char} (h : isTokenChar c = true) : TokenChar c := by
  have hall : (List.range 128).all (fun n => !isTokenChar (.ofNat n) ||
      (isNameChar (.ofNat n) && isHeaderChar (.ofNat n) && !isWhitespace (.ofNat n) &&
        !isLineTerminator (.ofNat n) &&
        !decide (Char.ofNat n ∈ ['=', ',', '"', ' ', '\\']))) = true := by
    decide +kernel
  have hc := List.all_eq_true.mp hall c.toNat (List.mem_range.mpr (toNat_lt_of_isTokenChar h))
  rw [Char.ofNat_toNat, h] at hc
  simp only [Bool.not_true, Bool.false_or, Bool.and_eq_true, Bool.not_eq_true',
    decide_eq_false_iff_not, List.mem_cons, not_or] at hc
  obtain ⟨⟨⟨⟨hname, hheader⟩, hspace⟩, hterminator⟩, hequals, hcomma, hquote,
      hsp, hbackslash, -⟩ := hc
  exact ⟨hname, hheader, hspace, hterminator, hequals, hcomma, hquote, hsp, hbackslash⟩

theorem isLineTerminator_of_isHeaderChar {c : Char} (h : isHeaderChar c = true) :
    isLineTerminator c = false := by
  by_contra hc
  rw [Bool.not_eq_false] at hc
  have hall : ∀ d ∈ ['\n', '\r', '\u2028', '\u2029'], (!isHeaderChar d) = true :=
    List.all_eq_true.mp (by decide)
  have hnot := hall c (of_decide_eq_true hc)
  rw [h] at hnot
  cases hnot

theorem toHeaderText_of_forall {text : List Char} (h : ∀ c ∈ text, isHeaderChar c = true) :
    toHeaderText text = text := by
  induction text with
  | nil => rfl
  | cons c text ih =>
    obtain ⟨hc, htext⟩ := List.forall_mem_cons.mp h
    rw [toHeaderText, if_pos hc, ih htext]

/-! ## Quoted strings -/

theorem matchQuoted_quote (text : List Char) : matchQuoted ('"' :: text) = some (['"'], text) := by
  cases text <;> rfl

theorem matchQuoted_of_ne {c : Char} (hquote : c ≠ '"') (hbackslash : c ≠ '\\') (text : List Char) :
    matchQuoted (c :: text) = (matchQuoted text).map fun m => (c :: m.1, m.2) := by
  cases text with
  | nil => simp [matchQuoted, hquote]
  | cons d text => rw [matchQuoted, if_neg hquote, if_neg hbackslash]

theorem matchQuoted_backslash {d : Char} (h : isLineTerminator d = false) (text : List Char) :
    matchQuoted ('\\' :: d :: text) = (matchQuoted text).map fun m => ('\\' :: d :: m.1, m.2) := by
  rw [matchQuoted, if_neg (by decide), if_pos rfl, h, if_neg Bool.false_ne_true]

/-- An escaped text goes on as what follows it. -/
theorem matchQuoted_escape (t rest : List Char) :
    matchQuoted (escape t ++ rest) = (matchQuoted rest).map fun m => (escape t ++ m.1, m.2) := by
  induction t with
  | nil => exact Option.map_id'.symm
  | cons c t ih =>
    rw [escape_cons, List.append_assoc]
    by_cases hbackslash : c = '\\'
    · subst hbackslash
      show matchQuoted ('\\' :: '\\' :: (escape t ++ rest)) = _
      rw [matchQuoted_backslash (by decide), ih, Option.map_map]
      rfl
    by_cases hquote : c = '"'
    · subst hquote
      show matchQuoted ('\\' :: '"' :: (escape t ++ rest)) = _
      rw [matchQuoted_backslash (by decide), ih, Option.map_map]
      rfl
    · rw [escapeChar_of_ne hbackslash hquote, List.singleton_append,
        matchQuoted_of_ne hquote hbackslash, ih, Option.map_map]
      rfl

theorem unescape_of_ne {c : Char} (h : c ≠ '\\') (text : List Char) :
    unescape (c :: text) = c :: unescape text := by
  cases text with
  | nil => rfl
  | cons d text => rw [unescape, if_neg (by simp [h])]

theorem unescape_escape (t : List Char) : unescape (escape t) = t := by
  induction t with
  | nil => rfl
  | cons c t ih =>
    rw [escape_cons]
    by_cases hbackslash : c = '\\'
    · subst hbackslash
      show unescape ('\\' :: '\\' :: escape t) = _
      rw [unescape, if_pos (by decide), ih]
    by_cases hquote : c = '"'
    · subst hquote
      show unescape ('\\' :: '"' :: escape t) = _
      rw [unescape, if_pos (by decide), ih]
    · rw [escapeChar_of_ne hbackslash hquote, List.singleton_append, unescape_of_ne hbackslash, ih]

/-- A value that was written is read back. -/
theorem sanitize_quoted (t : List Char) :
    sanitize ('"' :: (escape t ++ ['"'])) = String.ofList t := by
  rw [sanitize, if_pos (List.head?_cons ..), unquote, List.tail_cons, List.dropLast_concat,
    unescape_escape]

/-! ## Matches -/

theorem bodyMatches_of_some {text : List Char} {m : BodyMatch} (h : body text = some m) :
    bodyMatches text = (String.ofList m.key, m.newValue) :: bodyMatches m.rest := by
  rw [bodyMatches]
  split
  case h_1 m' hm =>
    rw [h] at hm
    cases hm
    rfl
  case h_2 hm =>
    rw [h] at hm
    cases hm

theorem bodyMatches_of_none {text : List Char} (h : body text = none) : bodyMatches text = [] := by
  rw [bodyMatches]
  split
  case h_1 m hm =>
    rw [h] at hm
    cases hm
  case h_2 => rfl

theorem bodyMatches_nil : bodyMatches [] = [] := bodyMatches_of_none rfl

theorem bodyMatches_of_bodyAt {text : List Char} {m : BodyMatch} (h : bodyAt text = some m) :
    bodyMatches text = (String.ofList m.key, m.newValue) :: bodyMatches m.rest := by
  cases text with
  | nil => cases h
  | cons c text => exact bodyMatches_of_some (Option.or_eq_some_iff.mpr (.inl h))

/-- A character that no name begins with is skipped. -/
theorem bodyMatches_skip {c : Char} (htoken : isToken68Char c = false)
    (hname : isNameChar c = false) (text : List Char) :
    bodyMatches (c :: text) = bodyMatches text := by
  have hat : bodyAt (c :: text) = none := by
    have h68 : matchToken68 (c :: text) = none := by
      rw [matchToken68, List.takeWhile_cons_of_neg (by simp [htoken])]
      exact if_neg fun h => h.1 rfl
    rw [bodyAt, matchKey, h68, List.takeWhile_cons_of_neg (by simp [hname])]
    rfl
  have hbody : body (c :: text) = body text := by
    rw [body, hat]
    exact Option.none_or
  cases h : body text with
  | none => rw [bodyMatches_of_none h, bodyMatches_of_none (hbody.trans h)]
  | some m => rw [bodyMatches_of_some h, bodyMatches_of_some (hbody.trans h)]

/-- What stands after the name of a parameter. -/
inductive AfterName : List Char → Prop
  | nil : AfterName []
  | comma (text : List Char) : AfterName (',' :: text)
  | quoted (text : List Char) : AfterName ('=' :: '"' :: text)

theorem takeWhile_afterName {p : Char → Bool} (hcomma : p ',' = false) (hequals : p '=' = false)
    {next : List Char} (h : AfterName next) : next.takeWhile p = [] ∧ next.dropWhile p = next := by
  cases h with
  | nil => exact ⟨rfl, rfl⟩
  | comma text => exact ⟨List.takeWhile_cons_of_neg (by simp [hcomma]),
      List.dropWhile_cons_of_neg (by simp [hcomma])⟩
  | quoted text => exact ⟨List.takeWhile_cons_of_neg (by simp [hequals]),
      List.dropWhile_cons_of_neg (by simp [hequals])⟩

theorem takeWhile_append_afterName {p : Char → Bool} (hcomma : p ',' = false)
    (hequals : p '=' = false) {name next : List Char} (hname : ∀ c ∈ name, p c = true)
    (h : AfterName next) :
    (name ++ next).takeWhile p = name ∧ (name ++ next).dropWhile p = next := by
  obtain ⟨htake, hdrop⟩ := takeWhile_afterName hcomma hequals h
  rw [List.takeWhile_append_of_pos hname, List.dropWhile_append_of_pos hname, htake, hdrop,
    List.append_nil]
  exact ⟨rfl, rfl⟩

/-- The first alternative matches a name only at the end of the text. -/
theorem matchToken68_name {name next : List Char} (hname : ∀ c ∈ name, isTokenChar c = true)
    (h : AfterName next) :
    matchToken68 (name ++ next) = none ∨ matchToken68 (name ++ next) = some (name, next) := by
  unfold matchToken68
  dsimp only
  by_cases hall : ∀ c ∈ name, isToken68Char c = true
  · obtain ⟨htake, hdrop⟩ := takeWhile_append_afterName (by decide) (by decide) hall h
    rw [htake, hdrop]
    cases h with
    | nil =>
      split_ifs
      · exact .inr (by simp)
      · exact .inl rfl
    | comma text =>
      refine .inl (if_neg fun hif => ?_)
      rcases hif.2 with hspaces | hrest
      · exact hspaces rfl
      · cases hrest
    | quoted text =>
      refine .inl (if_neg fun hif => ?_)
      rcases hif.2 with hspaces | hrest
      · exact hspaces rfl
      · cases hrest
  · -- another character of the token comes first, which is neither `=` nor white space
    have hdrop : ∃ d text, (name ++ next).dropWhile isToken68Char = d :: text ∧
        isTokenChar d = true := by
      have hne : name.dropWhile isToken68Char ≠ [] :=
        fun hnil => hall (List.dropWhile_eq_nil_iff.mp hnil)
      obtain ⟨d, text, hcons⟩ := List.exists_cons_of_ne_nil hne
      refine ⟨d, text ++ next, ?_,
        hname d ((List.dropWhile_suffix _).mem (hcons ▸ List.mem_cons_self))⟩
      rw [List.dropWhile_append, hcons]
      rfl
    obtain ⟨d, text, hdrop, hd⟩ := hdrop
    have htoken := isTokenChar.tokenChar hd
    refine .inl (if_neg fun hif => ?_)
    rw [hdrop, List.dropWhile_cons_of_neg (by simp [htoken.ne.1]),
      List.takeWhile_cons_of_neg (by simp [htoken.space])] at hif
    rcases hif.2 with hspaces | hrest
    · exact hspaces rfl
    · cases hrest

theorem matchKey_name {name next : List Char} (hne : name ≠ [])
    (hname : ∀ c ∈ name, isTokenChar c = true) (h : AfterName next) :
    matchKey (name ++ next) = some (name, next) := by
  obtain ⟨htake, hdrop⟩ := takeWhile_append_afterName (p := isNameChar) (by decide) (by decide)
    (fun c hc => (isTokenChar.tokenChar (hname c hc)).name) h
  rw [matchKey]
  rcases matchToken68_name hname h with hnone | hsome
  · rw [hnone, htake, hdrop]
    exact if_pos hne
  · rw [hsome]
    rfl

/-! ## Parameters -/

/-- A parameter with a token as its name and an escaped text in its quotes. -/
structure WellFormed (p : Param) : Prop where
  ne : p.name ≠ []
  name : ∀ c ∈ p.name, isTokenChar c = true
  quoted : ∀ quoted, p.quoted = some quoted → ∃ t, quoted = escape t

/-- What is matched in the text of a parameter. -/
def paramMatch (p : Param) : String × Option (List Char) :=
  (String.ofList p.name, p.quoted.map fun quoted => '"' :: (quoted ++ ['"']))

theorem matchValue_quote (text : List Char) :
    matchValue ('"' :: text) = (matchQuoted text).map fun m => ('"' :: m.1, m.2) := by
  rw [matchValue, List.takeWhile_cons_of_neg (by decide)]
  exact if_neg fun h => h rfl

theorem matchQuoted_close (t next : List Char) :
    matchQuoted (escape t ++ '"' :: next) = some (escape t ++ ['"'], next) := by
  rw [matchQuoted_escape, matchQuoted_quote]
  rfl

/-- The end of a list of parameters, or the comma before the next one. -/
inductive AfterParam : List Char → Prop
  | nil : AfterParam []
  | comma (text : List Char) : AfterParam (',' :: text)

theorem AfterParam.afterName {next : List Char} (h : AfterParam next) : AfterName next := by
  cases h with
  | nil => exact .nil
  | comma text => exact .comma text

theorem bodyMatches_param {p : Param} (hp : WellFormed p) {next : List Char} (h : AfterParam next) :
    bodyMatches (p.text ++ next) = paramMatch p :: bodyMatches next := by
  rw [Param.text, paramMatch]
  cases hq : p.quoted with
  | none =>
    have hat : bodyAt (p.name ++ next) = some ⟨p.name, none, next⟩ := by
      rw [bodyAt, matchKey_name hp.ne hp.name h.afterName]
      cases h <;> rfl
    rw [Option.elim_none, List.append_nil, bodyMatches_of_bodyAt hat]
    rfl
  | some quoted =>
    obtain ⟨t, rfl⟩ := hp.quoted quoted hq
    have htext : p.name ++ ("=\"".toList ++ escape t ++ ['"']) ++ next =
        p.name ++ '=' :: '"' :: (escape t ++ '"' :: next) := by
      simp
    have hat : bodyAt (p.name ++ '=' :: '"' :: (escape t ++ '"' :: next)) =
        some ⟨p.name, some ('"' :: (escape t ++ ['"'])), next⟩ := by
      rw [bodyAt, matchKey_name hp.ne hp.name (.quoted _)]
      simp only [Option.map_some, matchValue_quote, matchQuoted_close]
    rw [Option.elim_some, htext, bodyMatches_of_bodyAt hat]
    rfl

theorem bodyMatches_separator (text : List Char) :
    bodyMatches (", ".toList ++ text) = bodyMatches text :=
  (bodyMatches_skip (by decide) (by decide) _).trans (bodyMatches_skip (by decide) (by decide) _)

/-- Parameters after the first one. -/
def tailText (ps : List Param) : List Char := ps.flatMap fun p => ", ".toList ++ p.text

theorem afterParam_tailText (ps : List Param) {next : List Char} (h : AfterParam next) :
    AfterParam (tailText ps ++ next) := by
  cases ps with
  | nil => exact h
  | cons p ps => exact .comma _

theorem bodyMatches_tailText {ps : List Param} (hps : ∀ p ∈ ps, WellFormed p) {next : List Char}
    (h : AfterParam next) :
    bodyMatches (tailText ps ++ next) = ps.map paramMatch ++ bodyMatches next := by
  induction ps with
  | nil => rfl
  | cons p ps ih =>
    obtain ⟨hp, hrest⟩ := List.forall_mem_cons.mp hps
    rw [tailText, List.flatMap_cons, ← tailText, List.append_assoc, List.append_assoc,
      bodyMatches_separator, bodyMatches_param hp (afterParam_tailText ps h), ih hrest]
    rfl

/-! ## A quoted string that is cut off -/

theorem isValueChar_or_quoted {text value rest : List Char}
    (h : matchValue text = some (value, rest)) :
    (∀ c ∈ value, isValueChar c = true) ∨ ∃ quoted, value = '"' :: quoted := by
  unfold matchValue at h
  dsimp only at h
  split_ifs at h with hif
  · cases h
    exact .inl fun c hc => List.mem_takeWhile_imp hc
  · split at h
    · obtain ⟨m, -, heq⟩ := Option.map_eq_some_iff.mp h
      cases heq
      exact .inr ⟨_, rfl⟩
    · cases h

theorem isValueChar_of_bodyAt {text : List Char} {m : BodyMatch} (h : bodyAt text = some m)
    {value : List Char} (hvalue : m.newValue = some value) : (∀ c ∈ value, isValueChar c = true) ∨
    ∃ quoted, value = '"' :: quoted := by
  obtain ⟨⟨key, rest⟩, -, hm⟩ := Option.map_eq_some_iff.mp h
  dsimp only at hm
  split at hm
  · split at hm
    case h_1 hmatch =>
      subst hm
      cases hvalue
      exact isValueChar_or_quoted hmatch
    case h_2 =>
      subst hm
      cases hvalue
  · subst hm
    cases hvalue

theorem isValueChar_of_body {text : List Char} {m : BodyMatch} (h : body text = some m)
    {value : List Char} (hvalue : m.newValue = some value) : (∀ c ∈ value, isValueChar c = true) ∨
    ∃ quoted, value = '"' :: quoted := by
  induction text with
  | nil => cases h
  | cons c text ih =>
    rcases Option.or_eq_some_iff.mp h with h | ⟨-, h⟩
    · exact isValueChar_of_bodyAt h hvalue
    · exact ih h

/-- Where no quote follows an equals sign, no quoted string is matched. -/
theorem isValueChar_of_mem {text : List Char} (h : ¬ ['=', '"'] <:+: text)
    {m : String × Option (List Char)} (hm : m ∈ bodyMatches text) {value : List Char}
    (hvalue : m.2 = some value) : ∀ c ∈ value, isValueChar c = true := by
  induction text using bodyMatches.induct with
  | case1 text m' hbody ih =>
    obtain ⟨⟨skipped, heq⟩, -⟩ := eq_of_body hbody
    rw [bodyMatches_of_some hbody] at hm
    rcases List.mem_cons.mp hm with rfl | hm
    · rcases isValueChar_of_body hbody hvalue with hall | ⟨quoted, rfl⟩
      · exact hall
      · refine absurd ⟨skipped ++ m'.key, quoted ++ m'.rest, ?_⟩ h
        rw [heq, BodyMatch.text, show m'.newValue = some ('"' :: quoted) from hvalue]
        simp
    · refine ih (fun hwithin => h (hwithin.trans ?_)) hm
      exact ⟨skipped ++ m'.text, [], by rw [heq]; simp⟩
  | case2 text hbody =>
    rw [bodyMatches_of_none hbody] at hm
    cases hm

/-- A quote in an escaped text comes after a backslash. -/
theorem isChain_escape (t : List Char) : (escape t).IsChain fun c d => d = '"' → c = '\\' := by
  induction t with
  | nil => exact .nil
  | cons c t ih =>
    rw [escape_cons, List.isChain_append]
    refine ⟨?_, ih, fun x _ y hy hquote => ?_⟩
    · by_cases hbackslash : c = '\\'
      · subst hbackslash
        simp [escapeChar]
      by_cases hq : c = '"'
      · subst hq
        simp [escapeChar]
      · rw [escapeChar_of_ne hbackslash hq]
        exact .singleton _
    · -- no escaped text begins with a quote
      cases t with
      | nil => cases hy
      | cons d t =>
        rw [escape_cons] at hy
        unfold escapeChar at hy
        split_ifs at hy with hd hd'
        · cases hy
          cases hquote
        · cases hy
          cases hquote
        · cases hy
          exact absurd hquote hd'

theorem not_opening_escape (t : List Char) : ¬ ['=', '"'] <:+: escape t := by
  rintro ⟨before, after, h⟩
  have hchain := isChain_escape t
  rw [← h, List.append_assoc] at hchain
  have hbackslash : '=' = '\\' := hchain.right_of_append.rel rfl
  exact absurd hbackslash (by decide)

/-- The text of a value that is not closed: the name is matched without a value. -/
theorem bodyMatches_cut {name : List Char} (hne : name ≠ [])
    (hname : ∀ c ∈ name, isTokenChar c = true) (t : List Char) :
    bodyMatches (name ++ '=' :: '"' :: escape t) = (String.ofList name, none) :: bodyMatches
      (escape t) := by
  have hquoted : matchQuoted (escape t) = none := by
    have := matchQuoted_escape t []
    rwa [List.append_nil] at this
  have hat : bodyAt (name ++ '=' :: '"' :: escape t) =
      some ⟨name, none, '=' :: '"' :: escape t⟩ := by
    rw [bodyAt, matchKey_name hne hname (.quoted _)]
    simp only [Option.map_some, matchValue_quote, hquoted, Option.map_none]
  rw [bodyMatches_of_bodyAt hat]
  dsimp only
  rw [bodyMatches_skip (by decide) (by decide), bodyMatches_skip (by decide) (by decide)]

end IdentityCommon.Openid4vcUtils
