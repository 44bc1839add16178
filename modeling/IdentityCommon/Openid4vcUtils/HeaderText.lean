import IdentityCommon.Openid4vcUtils.WwwAuthenticate

/-!
# The text of a header

What a reader sees in an encoded header: the characters and the quoted strings.

## Main definitions

- `Scan` — reading the quoted strings of a text
- `quotedTexts` — the texts that are written in quotes
- `NoQuoteOutside` — schemes and names without a quote

## Main results

- `isHeaderChar_encode` — the characters of a header
- `quotedStrings_iff` — when the quoted strings are those that were written
-/

namespace IdentityCommon.Openid4vcUtils

/-! ## Reading quoted strings -/

/-- What is known of a text after some of its characters: the strings that were closed, and the one
that is open, with whether its next character is escaped. -/
structure Scan where
  closed : List (List Char) := []
  current : Option (List Char × Bool) := none
  deriving DecidableEq

namespace Scan

def step (s : Scan) (c : Char) : Scan :=
  match s.current with
  | none => if c = '"' then { s with current := some ([], false) } else s
  | some (text, true) => { s with current := some (text ++ [c], false) }
  | some (text, false) =>
    if c = '"' then { closed := s.closed ++ [text], current := none }
    else { s with current := some (text ++ [c], c = '\\') }

def run (s : Scan) (text : List Char) : Scan := text.foldl step s

theorem run_append (s : Scan) (t u : List Char) : s.run (t ++ u) = (s.run t).run u :=
  List.foldl_append

theorem run_cons (s : Scan) (c : Char) (t : List Char) : s.run (c :: t) = (s.step c).run t := rfl

/-- The quotes that were read and not escaped. -/
def quotes (s : Scan) : ℕ := 2 * s.closed.length + if s.current.isSome then 1 else 0

/-- Outside of every string. -/
def outside (closed : List (List Char)) : Scan := { closed }

theorem quotes_outside (closed : List (List Char)) :
    (outside closed).quotes = 2 * closed.length := rfl

/-- In a string whose next character is not escaped. -/
def inside (closed : List (List Char)) (text : List Char) : Scan :=
  { closed, current := some (text, false) }

/-- The next character is not escaped. -/
def Unescaped (s : Scan) : Prop := ∀ text, s.current ≠ some (text, true)

theorem step_outside {s : Scan} (h : s.current = none) {c : Char} (hc : c ≠ '"') :
    s.step c = s := by
  rw [step, h]
  exact if_neg hc

theorem run_outside {closed : List (List Char)} {t : List Char} (h : '"' ∉ t) :
    (outside closed).run t = outside closed := by
  induction t with
  | nil => rfl
  | cons c t ih =>
    have hc : c ≠ '"' := fun hc => h (hc ▸ List.mem_cons_self)
    rw [run_cons, step_outside rfl hc]
    exact ih fun ht => h (List.mem_cons_of_mem _ ht)

theorem quotes_step (s : Scan) (c : Char) : s.quotes ≤ (s.step c).quotes := by
  unfold step
  split
  · split_ifs
    · simp [quotes, *]
    · exact le_rfl
  · simp [quotes, *]
  · split_ifs
    · simp [quotes, *, Nat.mul_add]
    · simp [quotes, *]

theorem quotes_run (s : Scan) (t : List Char) : s.quotes ≤ (s.run t).quotes := by
  induction t generalizing s with
  | nil => exact le_rfl
  | cons c t ih => exact (s.quotes_step c).trans (ih _)

/-- A quote outside of a string is counted. -/
theorem quotes_run_lt {closed : List (List Char)} {t : List Char} (h : '"' ∈ t) :
    (outside closed).quotes < ((outside closed).run t).quotes := by
  obtain ⟨u, v, rfl, hu⟩ := List.eq_append_cons_of_mem h
  rw [run_append, run_outside hu, run_cons]
  exact lt_of_lt_of_le (by simp [quotes, outside, step]) (quotes_run _ v)

/-- A quote that is not escaped is counted, and the character after it is not escaped. -/
theorem step_quote {s : Scan} (h : s.Unescaped) : (s.step '"').quotes = s.quotes + 1 ∧
    (s.step '"').Unescaped := by
  unfold step
  split
  case h_1 => simp [quotes, Unescaped, *]
  case h_2 text hcurrent => exact absurd hcurrent (h text)
  case h_3 => simp [quotes, Unescaped, *, Nat.mul_add]

/-- Only a backslash in a string escapes a character. -/
theorem unescaped_step (s : Scan) {c : Char} (h : c ≠ '\\') : (s.step c).Unescaped := by
  unfold step
  split
  · split_ifs <;> simp [Unescaped, *]
  · simp [Unescaped]
  · split_ifs <;> simp [Unescaped, h]

end Scan

/-! ## Escaped texts -/

/-- What a character is escaped as. -/
def escapeChar (c : Char) : List Char :=
  if c = '\\' then ['\\', '\\'] else if c = '"' then ['\\', '"'] else [c]

theorem escape_eq (text : List Char) : escape text = text.flatMap escapeChar := by
  rw [escape, List.flatMap_assoc]
  congr 1
  funext c
  by_cases hc : c = '\\'
  · subst hc
    rfl
  · rw [if_neg hc, escapeChar, if_neg hc, List.flatMap_singleton]

theorem escape_cons (c : Char) (t : List Char) : escape (c :: t) = escapeChar c ++ escape t := by
  rw [escape_eq, escape_eq, List.flatMap_cons]

theorem escapeChar_of_ne {c : Char} (h : c ≠ '\\') (h' : c ≠ '"') : escapeChar c = [c] := by
  rw [escapeChar, if_neg h, if_neg h']

namespace Scan

/-- A string that is open goes on with an escaped character. -/
theorem run_escapeChar (closed : List (List Char)) (text : List Char) (c : Char) :
    (inside closed text).run (escapeChar c) = inside closed (text ++ escapeChar c) := by
  by_cases hc : c = '\\'
  · subst hc
    simp [run, inside, step, escapeChar]
  by_cases hq : c = '"'
  · subst hq
    simp [run, inside, step, escapeChar]
  · rw [escapeChar_of_ne hc hq]
    simp [run, inside, step, hc, hq]

theorem run_escape (closed : List (List Char)) (text t : List Char) :
    (inside closed text).run (escape t) = inside closed (text ++ escape t) := by
  induction t generalizing text with
  | nil => rw [show escape [] = [] from rfl, List.append_nil]; rfl
  | cons c t ih => rw [escape_cons, run_append, run_escapeChar, ih, List.append_assoc]

/-- In whatever state an escaped text is read, the character after it is not escaped. -/
theorem unescaped_run_escape {s : Scan} (h : s.Unescaped) (t : List Char) :
    (s.run (escape t)).Unescaped := by
  induction t generalizing s with
  | nil => exact h
  | cons c t ih =>
    rw [escape_cons, run_append]
    apply ih
    by_cases hc : c = '\\'
    · -- outside of a string the second backslash does not escape either
      subst hc
      show ((s.step '\\').step '\\').Unescaped
      cases hcurrent : s.current with
      | none =>
        rw [step_outside hcurrent (by decide), step_outside hcurrent (by decide)]
        exact h
      | some m =>
        obtain ⟨text, _ | _⟩ := m
        · simp [step, hcurrent, Unescaped]
        · exact absurd hcurrent (h text)
    by_cases hq : c = '"'
    · subst hq
      show ((s.step '\\').step '"').Unescaped
      exact unescaped_step _ (by decide)
    · rw [escapeChar_of_ne hc hq]
      exact unescaped_step _ hc

end Scan

/-- The text between the quotes of a value, with them and the equals sign. -/
def quotedText (t : List Char) : List Char := "=\"".toList ++ escape t ++ ['"']

namespace Scan

theorem run_quotedText (closed : List (List Char)) (t : List Char) :
    (outside closed).run (quotedText t) = outside (closed ++ [escape t]) := by
  have hopen : (outside closed).run "=\"".toList = inside closed [] := rfl
  rw [quotedText, run_append, run_append, hopen, run_escape, List.nil_append]
  rfl

/-- In whatever state it is read, both its quotes are counted. -/
theorem quotes_run_quotedText (s : Scan) (t : List Char) :
    s.quotes + 2 ≤ (s.run (quotedText t)).quotes := by
  have hopen := step_quote (s.unescaped_step (c := '=') (by decide))
  have hclose := step_quote (unescaped_run_escape hopen.2 t)
  have hstart := s.quotes_step '='
  have hinner := ((s.step '=').step '"').quotes_run (escape t)
  have hrun : s.run (quotedText t) = (((s.step '=').step '"').run (escape t)).step '"' := by
    rw [quotedText, run_append, run_append]
    rfl
  rw [hrun]
  omega

end Scan

/-! ## Pieces of a header -/

theorem flatMap_intercalate {α β : Type} (f : α → List β) (sep : List α) (ls : List (List α)) :
    (sep.intercalate ls).flatMap f = (sep.flatMap f).intercalate (ls.map (List.flatMap f)) := by
  induction ls with
  | nil => rfl
  | cons l ls ih =>
    cases ls with
    | nil => rw [List.intercalate_singleton, List.map_singleton, List.intercalate_singleton]
    | cons l' ls =>
      rw [List.intercalate_cons_cons, List.map_cons, List.map_cons, List.intercalate_cons_cons,
        ← List.map_cons, ← ih, List.flatMap_append, List.flatMap_append]

theorem forall_mem_intercalate {α : Type} {P : α → Prop} {sep : List α} (hsep : ∀ x ∈ sep, P x)
    (ls : List (List α)) :
    (∀ x ∈ sep.intercalate ls, P x) ↔ ∀ l ∈ ls, ∀ x ∈ l, P x := by
  induction ls with
  | nil => exact iff_of_true nofun nofun
  | cons l ls ih =>
    cases ls with
    | nil => rw [List.intercalate_singleton, List.forall_mem_singleton]
    | cons l' ls =>
      rw [List.intercalate_cons_cons, List.forall_mem_append, List.forall_mem_append, ih,
        List.forall_mem_cons (a := l)]
      exact and_congr_left fun _ => and_iff_left hsep

theorem Param.text_none (name : List Char) : Param.text ⟨name, none⟩ = name := List.append_nil _

/-- What stands between parameters and between challenges. -/
def comma : Param := ⟨", ".toList, none⟩

def joined (ls : List (List Param)) : List Param := [comma].intercalate ls

theorem text_joined (ls : List (List Param)) :
    (joined ls).flatMap Param.text = ", ".toList.intercalate (ls.map (List.flatMap Param.text)) :=
  flatMap_intercalate _ _ _

theorem quoted_joined (ls : List (List Param)) :
    (joined ls).filterMap Param.quoted = ls.flatMap (List.filterMap Param.quoted) := by
  induction ls with
  | nil => rfl
  | cons l ls ih =>
    cases ls with
    | nil => rw [joined, List.intercalate_singleton, List.flatMap_singleton]
    | cons l' ls =>
      rw [joined, List.intercalate_cons_cons, List.filterMap_append, List.filterMap_append,
        show [comma].intercalate (l' :: ls) = joined (l' :: ls) from rfl, ih,
          List.flatMap_cons (x := l)]
      exact congrArg (· ++ _) (List.append_nil _)

/-- The pieces that a challenge is written as. -/
def Challenge.pieces (challenge : Challenge) : List Param :=
  let scheme := toHeaderText challenge.scheme.toList
  if challenge.params = [] then [⟨scheme, none⟩]
  else ⟨scheme ++ [' '], none⟩ :: joined (challenge.params.map ([·]))

theorem text_pieces (challenge : Challenge) :
    challenge.pieces.flatMap Param.text = encodeChallenge challenge := by
  unfold Challenge.pieces encodeChallenge
  dsimp only
  by_cases h : challenge.params = []
  · rw [if_pos h, if_pos (List.map_eq_nil_iff.mpr h), List.flatMap_singleton, Param.text_none]
  · rw [if_neg h, if_neg (List.map_eq_nil_iff.not.mpr h), List.flatMap_cons,
      text_joined, List.map_map]
    have htext : List.flatMap Param.text ∘ (fun p => [p]) = Param.text := by
      funext p
      exact List.flatMap_singleton _ _
    rw [htext, Param.text_none]

/-- The texts that are written in quotes. -/
def quotedTexts (challenges : List Challenge) : List (List Char) :=
  challenges.flatMap fun challenge => challenge.params.filterMap Param.quoted

theorem quoted_pieces (challenge : Challenge) :
    challenge.pieces.filterMap Param.quoted = challenge.params.filterMap Param.quoted := by
  unfold Challenge.pieces
  dsimp only
  by_cases h : challenge.params = []
  · rw [if_pos h, h]
    rfl
  · rw [if_neg h, List.filterMap_cons_none rfl, quoted_joined, List.flatMap_map,
      List.filterMap_eq_flatMap_toList]
    rfl

def headerPieces (challenges : List Challenge) : List Param :=
  joined (challenges.map Challenge.pieces)

theorem text_headerPieces (challenges : List Challenge) :
    (headerPieces challenges).flatMap Param.text =
      (encodeWwwAuthenticateHeader challenges).toList := by
  have htext : List.flatMap Param.text ∘ Challenge.pieces = encodeChallenge := funext text_pieces
  rw [headerPieces, text_joined, List.map_map, htext, encodeWwwAuthenticateHeader]
  exact String.toList_ofList.symm

theorem quoted_headerPieces (challenges : List Challenge) :
    (headerPieces challenges).filterMap Param.quoted = quotedTexts challenges := by
  rw [headerPieces, quoted_joined, List.flatMap_map, quotedTexts]
  congr 1
  exact funext quoted_pieces

/-- What holds of every piece holds of every scheme and every parameter. -/
theorem forall_mem_headerPieces {P : Param → Prop} (hcomma : P comma)
    {challenges : List Challenge} :
    (∀ p ∈ headerPieces challenges, P p) ↔
      ∀ challenge ∈ challenges, ∀ p ∈ challenge.pieces, P p := by
  rw [headerPieces, joined, forall_mem_intercalate (List.forall_mem_singleton.mpr hcomma),
    List.forall_mem_map]

theorem forall_mem_pieces {P : Param → Prop} (hcomma : P comma) {challenge : Challenge} :
    (∀ p ∈ challenge.pieces, P p) ↔
      P ⟨toHeaderText challenge.scheme.toList ++
        (if challenge.params = [] then [] else [' ']), none⟩ ∧
        ∀ p ∈ challenge.params, P p := by
  unfold Challenge.pieces
  dsimp only
  by_cases h : challenge.params = []
  · rw [if_pos h, if_pos h, h, List.forall_mem_singleton, List.append_nil]
    exact (and_iff_left nofun).symm
  · rw [if_neg h, if_neg h, List.forall_mem_cons, joined,
      forall_mem_intercalate (List.forall_mem_singleton.mpr hcomma), List.forall_mem_map]
    simp only [List.forall_mem_singleton]

/-! ## Characters -/

theorem isHeaderChar_toHeaderText (text : List Char) :
    ∀ c ∈ toHeaderText text, isHeaderChar c = true := by
  induction text with
  | nil => nofun
  | cons c text ih =>
    unfold toHeaderText
    split_ifs with hc hrun
    · exact List.forall_mem_cons.mpr ⟨hc, ih⟩
    · exact ih
    · exact List.forall_mem_cons.mpr ⟨by decide, ih⟩

/-- A character that may stand in a header is kept, and only a space is added. -/
theorem mem_toHeaderText {text : List Char} {c : Char} (hc : isHeaderChar c = true)
    (hspace : c ≠ ' ') :
    c ∈ toHeaderText text ↔ c ∈ text := by
  induction text with
  | nil => rfl
  | cons d text ih =>
    unfold toHeaderText
    split_ifs with hd hrun
    · rw [List.mem_cons, List.mem_cons, ih]
    all_goals
      have hne : c ≠ d := fun h => hd (h ▸ hc)
      simp [ih, hne, hspace]

theorem isHeaderChar_escape {text : List Char} (h : ∀ c ∈ text, isHeaderChar c = true) :
    ∀ c ∈ escape text, isHeaderChar c = true := by
  intro c hc
  rw [escape_eq] at hc
  obtain ⟨d, hd, hc⟩ := List.mem_flatMap.mp hc
  unfold escapeChar at hc
  split_ifs at hc
  · have hall : ∀ c ∈ ['\\', '\\'], isHeaderChar c = true := List.all_eq_true.mp (by decide)
    exact hall c hc
  · have hall : ∀ c ∈ ['\\', '"'], isHeaderChar c = true := List.all_eq_true.mp (by decide)
    exact hall c hc
  · rw [List.mem_singleton.mp hc]
    exact h d hd

/-- The text of a value is escaped after everything else. -/
theorem exists_encodeText (key s : String) :
    ∃ text, encodeText key s = escape text ∧ ∀ c ∈ text, isHeaderChar c = true := by
  refine ⟨_, rfl, fun c hc => ?_⟩
  split_ifs at hc
  · rcases List.mem_append.mp hc with hc | hc
    · exact isHeaderChar_toHeaderText _ c (List.mem_of_mem_take hc)
    · have hall : ∀ c ∈ "...".toList, isHeaderChar c = true := List.all_eq_true.mp (by decide)
      exact hall c hc
  · exact isHeaderChar_toHeaderText _ c hc

/-- The parameters of a member have its name, and what is in quotes is escaped. -/
theorem mem_paramsOf {key : String} {value : PayloadValue} {p : Param}
    (h : p ∈ paramsOf key value) :
    p.name = toHeaderText key.toList ∧
      ∀ quoted, p.quoted = some quoted → ∃ text, quoted = escape text ∧
      ∀ c ∈ text, isHeaderChar c = true := by
  have hnull : ∀ {p : Param}, p = ⟨toHeaderText key.toList, none⟩ →
      p.name = toHeaderText key.toList ∧
      ∀ quoted, p.quoted = some quoted → ∃ text, quoted = escape text ∧
      ∀ c ∈ text, isHeaderChar c = true := by
    rintro p rfl
    exact ⟨rfl, nofun⟩
  have htext : ∀ {p : Param} {s : String}, p = ⟨toHeaderText key.toList, some (encodeText key s)⟩ →
      p.name = toHeaderText key.toList ∧
      ∀ quoted, p.quoted = some quoted → ∃ text, quoted = escape text ∧
      ∀ c ∈ text, isHeaderChar c = true := by
    rintro p s rfl
    refine ⟨rfl, fun quoted hquoted => ?_⟩
    cases hquoted
    exact exists_encodeText key s
  cases value with
  | undefined => nomatch h
  | null => exact hnull (List.mem_singleton.mp h)
  | text s =>
    unfold paramsOf at h
    dsimp only at h
    split_ifs at h
    · exact hnull (List.mem_singleton.mp h)
    · exact htext (List.mem_singleton.mp h)
  | texts ss =>
    obtain ⟨s, -, rfl⟩ := List.mem_map.mp h
    exact htext rfl

theorem mem_params {challenge : Challenge} {p : Param} :
    p ∈ challenge.params ↔ ∃ m ∈ challenge.payload.entries, p ∈ paramsOf m.1 m.2 :=
  List.mem_flatMap

theorem isHeaderChar_text {p : Param} {key : String} {value : PayloadValue}
    (h : p ∈ paramsOf key value) :
    ∀ c ∈ p.text, isHeaderChar c = true := by
  obtain ⟨hname, hquoted⟩ := mem_paramsOf h
  unfold Param.text
  rw [List.forall_mem_append, hname]
  refine ⟨isHeaderChar_toHeaderText _, ?_⟩
  cases hq : p.quoted with
  | none => nofun
  | some quoted =>
    obtain ⟨text, rfl, htext⟩ := hquoted quoted hq
    rw [Option.elim_some, List.forall_mem_append, List.forall_mem_append]
    exact ⟨⟨List.all_eq_true.mp (by decide), isHeaderChar_escape htext⟩,
      List.all_eq_true.mp (by decide)⟩

/-- The header has only characters from space to tilde. -/
theorem isHeaderChar_encode (challenges : List Challenge) :
    ∀ c ∈ (encodeWwwAuthenticateHeader challenges).toList, isHeaderChar c = true := by
  have hpieces : ∀ p ∈ headerPieces challenges, ∀ c ∈ p.text, isHeaderChar c = true := by
    have hcomma : ∀ c ∈ comma.text, isHeaderChar c = true := List.all_eq_true.mp (by decide)
    refine (forall_mem_headerPieces hcomma).mpr fun challenge _ =>
      (forall_mem_pieces hcomma).mpr ⟨?_, ?_⟩
    · rw [Param.text_none, List.forall_mem_append]
      refine ⟨isHeaderChar_toHeaderText _, ?_⟩
      split_ifs
      · nofun
      · exact List.forall_mem_singleton.mpr (by decide)
    · intro p hp
      obtain ⟨m, -, hp⟩ := mem_params.mp hp
      exact isHeaderChar_text hp
  intro c hc
  rw [← text_headerPieces] at hc
  obtain ⟨p, hp, hc⟩ := List.mem_flatMap.mp hc
  exact hpieces p hp c hc

/-! ## Quoted strings -/

section pieces

variable {pieces : List Param} (hescaped : ∀ p ∈ pieces, ∀ quoted, p.quoted = some quoted →
    ∃ t, quoted = escape t)

include hescaped

/-- Where no name has a quote, the strings that are read are those that were written. -/
theorem run_pieces (hnames : ∀ p ∈ pieces, '"' ∉ p.name) (closed : List (List Char)) :
    (Scan.outside closed).run (pieces.flatMap Param.text) =
      .outside (closed ++ pieces.filterMap Param.quoted) := by
  induction pieces generalizing closed with
  | nil => rw [List.filterMap_nil, List.append_nil]; rfl
  | cons p pieces ih =>
    obtain ⟨hp, hpieces⟩ := List.forall_mem_cons.mp hnames
    obtain ⟨hescaped, hrest⟩ := List.forall_mem_cons.mp hescaped
    rw [List.flatMap_cons, Scan.run_append, Param.text, Scan.run_append, Scan.run_outside hp]
    cases hq : p.quoted with
    | none =>
      rw [List.filterMap_cons_none hq]
      exact ih hrest hpieces closed
    | some quoted =>
      obtain ⟨t, rfl⟩ := hescaped quoted hq
      rw [List.filterMap_cons_some hq, Option.elim_some, ← quotedText, Scan.run_quotedText,
        ih hrest hpieces, List.append_assoc, List.singleton_append]

/-- In whatever state the pieces are read, the quotes of the values are counted. -/
theorem quotes_pieces (s : Scan) :
    s.quotes + 2 * (pieces.filterMap Param.quoted).length ≤
      (s.run (pieces.flatMap Param.text)).quotes := by
  induction pieces generalizing s with
  | nil => exact le_rfl
  | cons p pieces ih =>
    obtain ⟨hescaped, hrest⟩ := List.forall_mem_cons.mp hescaped
    rw [List.flatMap_cons, Scan.run_append, Param.text, Scan.run_append]
    have hname := s.quotes_run p.name
    cases hq : p.quoted with
    | none =>
      rw [List.filterMap_cons_none hq]
      exact (Nat.add_le_add_right hname _).trans (ih hrest _)
    | some quoted =>
      obtain ⟨t, rfl⟩ := hescaped quoted hq
      rw [List.filterMap_cons_some hq, Option.elim_some, ← quotedText, List.length_cons]
      have htext := (s.run p.name).quotes_run_quotedText t
      have htail := ih hrest ((s.run p.name).run (quotedText t))
      omega

/-- A quote in a name is counted besides them. -/
theorem quotes_pieces_lt (hname : ∃ p ∈ pieces, '"' ∈ p.name) (closed : List (List Char)) :
    (Scan.outside closed).quotes + 2 * (pieces.filterMap Param.quoted).length <
      ((Scan.outside closed).run (pieces.flatMap Param.text)).quotes := by
  induction pieces generalizing closed with
  | nil => simp at hname
  | cons p pieces ih =>
    obtain ⟨hp, hrest⟩ := List.forall_mem_cons.mp hescaped
    by_cases hquote : '"' ∈ p.name
    · -- the count goes up in the name, and by the quotes of the values after it
      have hlt : (Scan.outside closed).quotes < ((Scan.outside closed).run p.name).quotes :=
        Scan.quotes_run_lt hquote
      have hescaped' : ∀ q ∈ (⟨[], p.quoted⟩ :: pieces : List Param), ∀ quoted,
          q.quoted = some quoted →
          ∃ t, quoted = escape t := List.forall_mem_cons.mpr ⟨hp, hrest⟩
      have hvalues := quotes_pieces hescaped' ((Scan.outside closed).run p.name)
      have htext : (⟨[], p.quoted⟩ :: pieces : List Param).flatMap Param.text =
          p.quoted.elim [] (fun text => "=\"".toList ++ text ++ ['"']) ++
          pieces.flatMap Param.text := rfl
      have hcount : (⟨[], p.quoted⟩ :: pieces : List Param).filterMap Param.quoted =
          (p :: pieces).filterMap Param.quoted := by
        rw [List.filterMap_cons, List.filterMap_cons]
      rw [htext, hcount] at hvalues
      rw [List.flatMap_cons, Param.text, List.append_assoc, Scan.run_append]
      omega
    · have hname' : ∃ q ∈ pieces, '"' ∈ q.name := by
        obtain ⟨q, hq, hmem⟩ := hname
        rcases List.mem_cons.mp hq with rfl | hq
        · exact absurd hmem hquote
        · exact ⟨q, hq, hmem⟩
      have hrun : (Scan.outside closed).run ([p].flatMap Param.text) =
          .outside (closed ++ [p].filterMap Param.quoted) :=
        run_pieces (List.forall_mem_singleton.mpr hp) (List.forall_mem_singleton.mpr hquote) closed
      rw [List.flatMap_singleton] at hrun
      have htail := ih hrest hname' (closed ++ [p].filterMap Param.quoted)
      rw [List.flatMap_cons, Scan.run_append, hrun, show p :: pieces = [p] ++ pieces from rfl,
        List.filterMap_append, List.length_append]
      rw [Scan.quotes_outside, List.length_append] at htail
      rw [Scan.quotes_outside]
      omega

end pieces

/-- The member is written: it has parameters. -/
def Written (value : PayloadValue) : Prop := value ≠ .undefined ∧ value ≠ .texts []

/-- No scheme and no name that is written has a quote. -/
def NoQuoteOutside (challenges : List Challenge) : Prop :=
  ∀ challenge ∈ challenges, '"' ∉ challenge.scheme.toList ∧
    ∀ m ∈ challenge.payload.entries, Written m.2 → '"' ∉ m.1.toList

theorem paramsOf_ne_nil {key : String} {value : PayloadValue} :
    paramsOf key value ≠ [] ↔ Written value := by
  unfold Written
  cases value with
  | undefined => simp [paramsOf]
  | null => simp [paramsOf]
  | text s =>
    unfold paramsOf
    dsimp only
    split_ifs <;> simp
  | texts ss => simp [paramsOf]

/-- The quoted strings of the header are the values that were written, each open from its first
quote to its last. -/
def QuotedStringsHold (challenges : List Challenge) : Prop :=
  Scan.run {} (encodeWwwAuthenticateHeader challenges).toList = .outside (quotedTexts challenges)

theorem quote_not_mem_toHeaderText {text : List Char} : '"' ∉ toHeaderText text ↔ '"' ∉ text :=
  (mem_toHeaderText (by decide) (by decide)).not

theorem noQuoteOutside_iff {challenges : List Challenge} :
    NoQuoteOutside challenges ↔ ∀ p ∈ headerPieces challenges, '"' ∉ p.name := by
  rw [forall_mem_headerPieces (by decide)]
  refine forall₂_congr fun challenge _ => ?_
  rw [forall_mem_pieces (by decide), List.mem_append, not_or, quote_not_mem_toHeaderText]
  have hspace : '"' ∉ (if challenge.params = [] then [] else [' ']) := by
    split_ifs <;> decide
  rw [and_iff_left hspace]
  refine and_congr_right fun _ => ⟨fun h p hp => ?_, fun h m hm hwritten => ?_⟩
  · obtain ⟨m, hm, hp⟩ := mem_params.mp hp
    rw [(mem_paramsOf hp).1, quote_not_mem_toHeaderText]
    exact h m hm (paramsOf_ne_nil.mp (List.ne_nil_of_mem hp))
  · obtain ⟨p, hp⟩ := List.exists_mem_of_ne_nil _ (paramsOf_ne_nil.mpr hwritten)
    have hname := h p (mem_params.mpr ⟨m, hm, hp⟩)
    rwa [(mem_paramsOf hp).1, quote_not_mem_toHeaderText] at hname

theorem escaped_headerPieces (challenges : List Challenge) :
    ∀ p ∈ headerPieces challenges, ∀ quoted, p.quoted = some quoted → ∃ t, quoted = escape t := by
  refine (forall_mem_headerPieces nofun).mpr fun challenge _ =>
    (forall_mem_pieces nofun).mpr ⟨nofun, ?_⟩
  intro p hp quoted hquoted
  obtain ⟨m, -, hp⟩ := mem_params.mp hp
  obtain ⟨t, ht, -⟩ := (mem_paramsOf hp).2 quoted hquoted
  exact ⟨t, ht⟩

theorem quotedStrings_iff (challenges : List Challenge) :
    QuotedStringsHold challenges ↔ NoQuoteOutside challenges := by
  have hescaped := escaped_headerPieces challenges
  rw [QuotedStringsHold, noQuoteOutside_iff, ← text_headerPieces, ← quoted_headerPieces]
  constructor
  · intro h
    by_contra hquote
    push Not at hquote
    have hlt := quotes_pieces_lt hescaped hquote []
    rw [show Scan.outside [] = {} from rfl, h, Scan.quotes_outside] at hlt
    exact lt_irrefl _ ((Nat.le_add_left _ _).trans_lt hlt)
  · exact fun h => run_pieces hescaped h []

end IdentityCommon.Openid4vcUtils
