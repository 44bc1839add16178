import IdentityCommon.Ecma.Json

/-!
# Round trip of JSON text

`JSON.parse` reads what `JSON.stringify` writes.

## Main results

- `parseNumber_toText`, `parseString_quote` — for numbers and strings
- `parse_stringify` — for JSON values
- `isJson_of_parse` — what is read is a JSON value
-/

namespace IdentityCommon.Ecma.Json

open AssocList DigitString Value

/-! ## Numbers -/

/-- No number goes on with the text. -/
def EndsNumber (rest : List Char) : Prop :=
  ∀ c ∈ rest.head?, c.isDigit = false ∧ c ≠ '.' ∧ c ≠ 'e' ∧ c ≠ 'E'

theorem takeWhile_digits {ds rest : List Char} (hd : ∀ c ∈ ds, c.isDigit)
    (hr : ∀ c ∈ rest.head?, c.isDigit = false) : (ds ++ rest).takeWhile Char.isDigit = ds := by
  rw [List.takeWhile_append_of_pos hd]
  cases rest with
  | nil => simp
  | cons c rest => simp [hr c rfl]

theorem dropWhile_digits {ds rest : List Char} (hd : ∀ c ∈ ds, c.isDigit)
    (hr : ∀ c ∈ rest.head?, c.isDigit = false) : (ds ++ rest).dropWhile Char.isDigit = rest := by
  rw [List.dropWhile_append_of_pos hd]
  cases rest with
  | nil => simp
  | cons c rest => simp [hr c rfl]

theorem isDigit_digits (n : ℕ) : ∀ c ∈ Number.digits n, c.isDigit := by
  intro c hc
  exact Nat.isDigit_of_mem_toDigits (by decide) (by decide) hc

theorem isDigit_zeros (n : ℕ) : ∀ c ∈ Number.zeros n, c.isDigit := by
  intro c hc
  obtain rfl := List.eq_of_mem_replicate hc
  rfl

theorem parseDigits_digits (n : ℕ) : parseDigits 10 (Number.digits n) = n :=
  parseDigits_toDigits (by decide) (by decide) n

theorem digits_ne_nil (n : ℕ) : Number.digits n ≠ [] := Nat.toDigits_ne_nil

/-- The digits of a positive number do not start with zero. -/
theorem head_digits {n : ℕ} (hn : 0 < n) : (Number.digits n).head? ≠ some '0' := by
  intro h
  obtain ⟨t, ht⟩ : ∃ t, Number.digits n = '0' :: t := by
    cases hd : Number.digits n with
    | nil => simp [hd] at h
    | cons c t =>
      rw [hd] at h
      exact ⟨t, by simpa using h⟩
  have hval : parseDigits 10 t = n := by
    have hp := parseDigits_digits n
    have hzero : parseDigits 10 ['0'] = 0 := rfl
    rwa [ht, show '0' :: t = ['0'] ++ t from rfl, parseDigits_append, hzero,
      mul_zero, zero_add] at hp
  have hlt : n < 10 ^ t.length := by
    rw [← hval]
    refine parseDigits_lt fun c hc => ?_
    exact isDigits_toDigits (b := 10) (by decide) (by decide) n c
      (by rw [Number.digits] at ht; rw [ht]; exact List.mem_cons_of_mem _ hc)
  obtain ht0 | ht0 := Nat.eq_zero_or_pos t.length
  · rw [ht0] at hlt
    omega
  · have hle := (Nat.length_toDigits_le_iff (b := 10) (by decide) ht0).mpr hlt
    rw [Number.digits] at ht
    rw [ht, List.length_cons] at hle
    omega

/-- A number from its parts. -/
theorem parseNumber_parts {negative : Bool} {int fraction rest after : List Char} {exponent : ℤ}
    {cs : List Char} (hcs : parseSign false cs = (negative, int ++ rest))
    (hint : ∀ c ∈ int, c.isDigit) (hne : int ≠ []) (hzero : int.head? = some '0' → int.length = 1)
    (hrest : ∀ c ∈ rest.head?, c.isDigit = false) {after' : List Char}
    (hfraction : parseFraction rest = some (fraction, after'))
    (hexponent : parseExponent after' = some (exponent, after)) :
    parseNumber cs = some (.ofDecimal
      (if negative then -(parseDigits 10 (int ++ fraction) : ℤ)
        else parseDigits 10 (int ++ fraction))
      (exponent - fraction.length), after) := by
  have hcond : ¬ (int = [] ∨ int.head? = some '0' ∧ int.length ≠ 1) := by
    rintro (h | ⟨h, h'⟩)
    · exact hne h
    · exact h' (hzero h)
  simp only [parseNumber, hcs, takeWhile_digits hint hrest, dropWhile_digits hint hrest,
    if_neg hcond, hfraction, hexponent, Option.bind_eq_bind, Option.bind_some]
  rfl

theorem parseFraction_nil {rest : List Char} (h : rest.head? ≠ some '.') :
    parseFraction rest = some ([], rest) := by
  unfold parseFraction
  split
  · exact absurd rfl h
  · rfl

theorem parseFraction_point {ds rest : List Char} (hd : ∀ c ∈ ds, c.isDigit) (hne : ds ≠ [])
    (hr : ∀ c ∈ rest.head?, c.isDigit = false) :
    parseFraction ('.' :: (ds ++ rest)) = some (ds, rest) := by
  rw [parseFraction, takeWhile_digits hd hr, dropWhile_digits hd hr, if_neg hne]

theorem parseExponent_zero {rest : List Char} (h : EndsNumber rest) :
    parseExponent rest = some (0, rest) := by
  cases rest with
  | nil => rfl
  | cons c rest =>
    obtain ⟨-, -, he, hE⟩ := h c rfl
    rw [parseExponent, if_neg (by simp [he, hE])]

theorem parseExponent_text {rest : List Char} (h : EndsNumber rest) (n : ℤ) :
    parseExponent ('e' :: (if 0 < n then '+' else '-') :: (Number.digits n.natAbs ++ rest)) =
      some (n, rest) := by
  have hr : ∀ c ∈ rest.head?, c.isDigit = false := fun c hc => (h c hc).1
  have hsign : parseSign true ((if 0 < n then '+' else '-') :: (Number.digits n.natAbs ++ rest)) =
      (decide (¬ 0 < n), Number.digits n.natAbs ++ rest) := by
    by_cases hn : 0 < n
    · simp [hn, parseSign]
    · simp [hn, parseSign]
  rw [parseExponent, if_pos (.inl rfl), hsign]
  simp only [takeWhile_digits (isDigit_digits _) hr, dropWhile_digits (isDigit_digits _) hr,
    if_neg (digits_ne_nil _), parseDigits_digits]
  by_cases hn : 0 < n
  · simp [hn, abs_of_pos hn]
  · simp [hn, abs_of_nonpos (not_lt.mp hn)]

/-- `cs` is the text of `m * 10 ^ e` and `rest` comes after it. -/
structure IsText (m : ℕ) (e : ℤ) (cs rest : List Char) (int fraction : List Char) (exponent : ℤ)
    (after : List Char) : Prop where
  split : cs = int ++ after
  int_digits : ∀ c ∈ int, c.isDigit
  int_ne_nil : int ≠ []
  int_zero : int.head? = some '0' → int.length = 1
  not_digit : ∀ c ∈ after.head?, c.isDigit = false
  parts : ∃ after', parseFraction after = some (fraction, after') ∧
    parseExponent after' = some (exponent, rest)
  value : ∃ j : ℕ, parseDigits 10 (int ++ fraction) = m * 10 ^ j ∧
    exponent - fraction.length = e - j

theorem parseDigits_zeros (s : List Char) (n : ℕ) :
    parseDigits 10 (s ++ Number.zeros n) = parseDigits 10 s * 10 ^ n := by
  rw [parseDigits_append, Number.zeros, parseDigits_replicate_zero, List.length_replicate,
    add_zero, mul_comm]

theorem parseDigits_zeros_append (s : List Char) (n : ℕ) :
    parseDigits 10 (Number.zeros n ++ s) = parseDigits 10 s := by
  rw [parseDigits_append, Number.zeros, parseDigits_replicate_zero, mul_zero, zero_add]

/-- The text of a number that is not negative. -/
theorem isText_toChars {m : ℕ} {e : ℤ} (hm : 0 < m ∨ m = 0 ∧ e = 0) {rest : List Char}
    (hr : EndsNumber rest) :
    ∃ int fraction exponent after,
      IsText m e (Number.toChars m e ++ rest) rest int fraction exponent after := by
  have hdigits := isDigit_digits m
  have hrest : ∀ c ∈ rest.head?, c.isDigit = false := fun c hc => (hr c hc).1
  have hpoint : rest.head? ≠ some '.' := fun h => (hr '.' h).2.1 rfl
  set s := Number.digits m with hs
  have hne : s ≠ [] := digits_ne_nil m
  have hhead : s.head? = some '0' → s.length = 1 ∧ m = 0 := by
    intro h
    obtain hm | ⟨rfl, -⟩ := hm
    · exact absurd h (head_digits hm)
    · exact ⟨rfl, rfl⟩
  have hval : parseDigits 10 s = m := parseDigits_digits m
  have hlen : 0 < s.length := List.length_pos_iff.mpr hne
  simp only [Number.toChars, ← hs]
  split
  case isTrue h =>
    -- no point and no exponent
    refine ⟨s ++ Number.zeros e.toNat, [], 0, rest, rfl, ?_, by simp [hne], ?_, hrest,
      ⟨rest, parseFraction_nil hpoint, parseExponent_zero hr⟩, e.toNat, ?_, ?_⟩
    · intro c hc
      exact (List.mem_append.mp hc).elim (hdigits c) (isDigit_zeros _ c)
    · intro h0
      have h0 : s.head? = some '0' := by simpa [List.head?_append_of_ne_nil _ hne] using h0
      obtain ⟨h1, rfl⟩ := hhead h0
      obtain hm | ⟨-, rfl⟩ := hm
      · omega
      · simpa [Number.zeros] using h1
    · rw [List.append_nil, parseDigits_zeros, hval]
    · simp only [List.length_nil]
      omega
  case isFalse h₁ =>
    split
    case isTrue h =>
      -- a point among the digits
      have hk : (e : ℤ) < 0 := by omega
      have hpos : 0 < m := hm.resolve_right (by omega)
      have htake : s.take ((s.length : ℤ) + e).toNat ≠ [] := by
        rw [Ne, List.take_eq_nil_iff]
        simp only [hne, or_false]
        omega
      have hdrop : s.drop ((s.length : ℤ) + e).toNat ≠ [] := by
        rw [Ne, List.drop_eq_nil_iff]
        omega
      refine ⟨s.take ((s.length : ℤ) + e).toNat, s.drop ((s.length : ℤ) + e).toNat, 0,
        _, ?_, ?_, htake, ?_, ?_, ⟨rest, parseFraction_point ?_ hdrop hrest, parseExponent_zero hr⟩,
          0, ?_, ?_⟩
      · simp
      · exact fun c hc => hdigits c (List.mem_of_mem_take hc)
      · intro h0
        refine absurd (hhead ?_).2 hpos.ne'
        rwa [List.head?_take, if_neg (by omega)] at h0
      · simp
      · exact fun c hc => hdigits c (List.mem_of_mem_drop hc)
      · rw [List.take_append_drop, hval, pow_zero, mul_one]
      · rw [List.length_drop]
        omega
    case isFalse h₂ =>
      split
      case isTrue h =>
        -- a number below one
        refine ⟨['0'], Number.zeros (-((s.length : ℤ) + e)).toNat ++ s, 0, _, rfl, ?_, by simp,
          fun _ => rfl, ?_, ⟨rest, parseFraction_point ?_ (by simp [hne]) hrest,
            parseExponent_zero hr⟩, 0, ?_, ?_⟩
        · intro c hc
          obtain rfl := List.mem_singleton.mp hc
          rfl
        · simp
        · intro c hc
          exact (List.mem_append.mp hc).elim (isDigit_zeros _ c) (hdigits c)
        · rw [parseDigits_append, parseDigits_zeros_append, hval, pow_zero, mul_one]
          exact (congrArg (· + m) (Nat.mul_zero _)).trans (Nat.zero_add m)
        · simp only [List.length_append, Number.zeros, List.length_replicate]
          omega
      case isFalse h₃ =>
        have hpos : 0 < m := by
          obtain hm | ⟨rfl, rfl⟩ := hm
          · exact hm
          · exact absurd ⟨by omega, by rw [hs]; decide⟩ h₁
        have hzero : s.head? ≠ some '0' := fun h => absurd (hhead h).2 hpos.ne'
        have hexp : parseExponent ('e' :: (if 0 < (s.length : ℤ) + e then '+' else '-') ::
            (Number.digits ((s.length : ℤ) + e - 1).natAbs ++ rest)) =
              some ((s.length : ℤ) + e - 1, rest) := by
          have hsign : (0 < (s.length : ℤ) + e) ↔ 0 < (s.length : ℤ) + e - 1 := by omega
          rw [← parseExponent_text hr]
          simp only [hsign]
        split
        case isTrue =>
          refine ⟨s, [], (s.length : ℤ) + e - 1, _, List.append_assoc _ _ _, hdigits, hne,
            fun h => absurd h hzero, ?_, ⟨_, parseFraction_nil ?_, hexp⟩, 0, ?_, ?_⟩
          · simp
          · simp
          · rw [List.append_nil, hval, pow_zero, mul_one]
          · simp only [List.length_nil]
            omega
        case isFalse h =>
          have hdrop : s.drop 1 ≠ [] := by
            rw [Ne, List.drop_eq_nil_iff]
            omega
          refine ⟨s.take 1, s.drop 1, (s.length : ℤ) + e - 1, _, ?_, ?_, ?_, ?_, ?_,
            ⟨_, parseFraction_point ?_ hdrop ?_, hexp⟩, 0, ?_, ?_⟩
          · simp
          · exact fun c hc => hdigits c (List.mem_of_mem_take hc)
          · simp [hne]
          · intro h0
            rw [List.head?_take, if_neg (by decide)] at h0
            exact absurd h0 hzero
          · simp
          · exact fun c hc => hdigits c (List.mem_of_mem_drop hc)
          · simp
          · rw [List.take_append_drop, hval, pow_zero, mul_one]
          · rw [List.length_drop]
            omega

theorem IsText.parseSign {m : ℕ} {e exponent : ℤ} {cs rest int fraction after : List Char}
    (h : IsText m e cs rest int fraction exponent after) : parseSign false cs = (false, cs) := by
  rw [h.split]
  cases hint : int with
  | nil => exact absurd hint h.int_ne_nil
  | cons c int =>
    have hc := h.int_digits c (by rw [hint]; exact List.mem_cons_self)
    rw [List.cons_append]
    unfold Json.parseSign
    split
    case h_1 heq =>
      obtain rfl := (List.cons.inj heq).1
      cases hc
    case h_2 heq =>
      obtain rfl := (List.cons.inj heq).1
      cases hc
    case h_3 => rfl

/-- The text of a number is read back. -/
theorem parseNumber_toText (n : Number) {rest : List Char} (hr : EndsNumber rest) :
    parseNumber (n.toText ++ rest) = some (n, rest) := by
  have hm : 0 < n.mantissa.natAbs ∨ n.mantissa.natAbs = 0 ∧ n.exponent = 0 := by
    obtain h | ⟨h, he⟩ := n.canonical
    · refine .inl (Int.natAbs_pos.mpr ?_)
      intro h0
      exact h (h0 ▸ dvd_zero 10)
    · exact .inr ⟨by rw [h]; rfl, he⟩
  obtain ⟨int, fraction, exponent, after, ht⟩ := isText_toChars hm hr
  have hsign := ht.parseSign
  obtain ⟨hsplit, hint, hne, hzero, hdigit, ⟨after', hfraction, hexponent⟩, j, hvalue, hexp⟩ := ht
  have hn : ∀ {mantissa : ℤ}, mantissa = n.mantissa * 10 ^ j →
      Number.ofDecimal mantissa (exponent - fraction.length) = n := by
    rintro mantissa rfl
    rw [hexp]
    exact Number.ofDecimal_mul_pow n j
  rw [Number.toText]
  split
  case isTrue hneg =>
    have hcs : Json.parseSign false ('-' :: (Number.toChars n.mantissa.natAbs n.exponent ++ rest)) =
        (true, int ++ after) := by rw [Json.parseSign, hsplit]
    rw [List.cons_append, parseNumber_parts hcs hint hne hzero hdigit hfraction hexponent,
      if_pos rfl]
    refine congrArg (fun n => some (n, rest)) (hn ?_)
    rw [hvalue]
    push_cast
    rw [abs_of_neg hneg]
    ring
  case isFalse hneg =>
    rw [hsplit] at hsign ⊢
    rw [parseNumber_parts hsign hint hne hzero hdigit hfraction hexponent, if_neg (by decide)]
    refine congrArg (fun n => some (n, rest)) (hn ?_)
    rw [hvalue]
    push_cast
    rw [abs_of_nonneg (not_lt.mp hneg)]

/-! ## Strings -/

theorem hexValue_hexDigit : ∀ n < 16, hexValue (hexDigit n) = some n := by decide

theorem ofNat_hex (c : Char) : Char.ofNat (c.toNat / 16 * 16 + c.toNat % 16) = c := by
  rw [Nat.div_add_mod' c.toNat 16]
  exact Char.ofNat_toNat c

/-- A character is read back from its escape. -/
theorem parseString_escape (c : Char) (fuel : ℕ) (rest : List Char) :
    parseString (fuel + 1) (escape c ++ rest) = (parseString fuel rest).map fun r =>
      (c :: r.1, r.2) := by
  have hesc : ∀ (d : Char) (cs : List Char), parseEscape (d :: cs ++ rest) = some (c, rest) →
      parseString (fuel + 1) ('\\' :: d :: cs ++ rest) =
        (parseString fuel rest).map fun r => (c :: r.1, r.2) := by
    intro d cs h
    rw [List.cons_append, parseString, if_neg (by decide), if_pos rfl, h]
    simp only [Option.bind_eq_bind, Option.bind_some]
    cases parseString fuel rest <;> rfl
  unfold escape
  split
  case isTrue h => exact hesc '"' [] (by rw [h]; rfl)
  split
  case isTrue h => exact hesc '\\' [] (by rw [h]; rfl)
  split
  case isTrue h => exact hesc 'b' [] (by rw [h]; rfl)
  split
  case isTrue h => exact hesc 't' [] (by rw [h]; rfl)
  split
  case isTrue h => exact hesc 'n' [] (by rw [h]; rfl)
  split
  case isTrue h => exact hesc 'f' [] (by rw [h]; rfl)
  split
  case isTrue h => exact hesc 'r' [] (by rw [h]; rfl)
  split
  case isTrue h =>
    refine hesc 'u' ['0', '0', hexDigit (c.toNat / 16), hexDigit (c.toNat % 16)] ?_
    have hzero : hexValue '0' = some 0 := rfl
    have h₁ := hexValue_hexDigit (c.toNat / 16) (by omega)
    have h₂ := hexValue_hexDigit (c.toNat % 16) (by omega)
    have hlt : c.toNat / 16 * 16 + c.toNat % 16 < 0xD800 := by omega
    simp [parseEscape, parseHex, hzero, h₁, h₂, hlt, ofNat_hex]
  case isFalse hquote hslash _ _ _ _ _ hlt =>
    rw [List.singleton_append, parseString, if_neg hquote, if_neg hslash, if_neg hlt]
    cases parseString fuel rest <;> rfl

theorem length_escape_pos (c : Char) : 0 < (escape c).length := by
  unfold escape
  repeat' split
  all_goals exact Nat.succ_pos _

/-- The characters of a quoted string are read back. -/
theorem parseString_quote {cs rest : List Char} :
    ∀ {fuel : ℕ}, cs.length < fuel → parseString fuel (cs.flatMap escape ++ '"' :: rest) =
      some (cs, rest) := by
  induction cs with
  | nil =>
    intro fuel hf
    obtain ⟨fuel, rfl⟩ := Nat.exists_eq_add_of_lt hf
    rw [List.flatMap_nil, List.nil_append, parseString, if_pos rfl]
  | cons c cs ih =>
    intro fuel hf
    obtain ⟨fuel, rfl⟩ : ∃ n, fuel = n + 1 := ⟨fuel - 1, by omega⟩
    rw [List.flatMap_cons, List.append_assoc, parseString_escape, ih (by simpa using hf)]
    rfl

theorem length_le_flatMap_escape (cs : List Char) : cs.length ≤ (cs.flatMap escape).length := by
  induction cs with
  | nil => rfl
  | cons c cs ih =>
    rw [List.flatMap_cons, List.length_append, List.length_cons]
    have := length_escape_pos c
    omega

/-! ## Values -/

theorem skipSpace_cons {c : Char} (h : isSpace c = false) (cs : List Char) :
    skipSpace (c :: cs) = c :: cs := by
  rw [skipSpace, List.dropWhile_cons_of_neg (by simp [h])]

/-- The text is read as the value, and starts like a value. -/
structure Reads (v : Value) (text : List Char) : Prop where
  start : ∃ c cs, text = c :: cs ∧ isSpace c = false ∧ c ≠ ']' ∧ c ≠ '\x7d'
  parse : ∀ fuel rest, text.length ≤ fuel → EndsNumber rest →
    parseValue fuel (text ++ rest) = some (v, rest)

/-- A number starts with a digit or a minus. -/
theorem start_toText (n : Number) : ∃ c cs, n.toText = c :: cs ∧ (c.isDigit ∨ c = '-') := by
  rw [Number.toText]
  split
  case isTrue => exact ⟨_, _, rfl, .inr rfl⟩
  case isFalse hneg =>
    have hm : 0 < n.mantissa.natAbs ∨ n.mantissa.natAbs = 0 ∧ n.exponent = 0 := by
      obtain h | ⟨h, he⟩ := n.canonical
      · refine .inl (Int.natAbs_pos.mpr ?_)
        intro h0
        exact h (h0 ▸ dvd_zero 10)
      · exact .inr ⟨by rw [h]; rfl, he⟩
    obtain ⟨int, fraction, exponent, after, ht⟩ := isText_toChars hm (nofun : EndsNumber [])
    obtain ⟨hsplit, hint, hne, -⟩ := ht
    rw [List.append_nil] at hsplit
    cases int with
    | nil => exact absurd rfl hne
    | cons c int => exact ⟨c, int ++ after, hsplit, .inl (hint c List.mem_cons_self)⟩

theorem not_digit_of_eq {c d : Char} (hd : d.isDigit = false) (hm : d ≠ '-')
    (h : c.isDigit ∨ c = '-') :
    c ≠ d := by
  rintro rfl
  obtain h | h := h
  · rw [hd] at h
    cases h
  · exact hm h

theorem reads_num (n : Number) : Reads (num n) n.toText := by
  obtain ⟨c, cs, htext, hc⟩ := start_toText n
  have hspace : isSpace c = false := by
    simp only [isSpace, Bool.or_eq_false_iff, decide_eq_false_iff_not]
    exact ⟨⟨⟨not_digit_of_eq rfl (by decide) hc, not_digit_of_eq rfl (by decide) hc⟩,
      not_digit_of_eq rfl (by decide) hc⟩, not_digit_of_eq rfl (by decide) hc⟩
  refine ⟨⟨c, cs, htext, hspace, not_digit_of_eq rfl (by decide) hc,
    not_digit_of_eq rfl (by decide) hc⟩, ?_⟩
  intro fuel rest hf hr
  obtain ⟨fuel, rfl⟩ : ∃ k, fuel = k + 1 := ⟨fuel - 1, by rw [htext, List.length_cons] at hf; omega⟩
  have hnum := parseNumber_toText n hr
  rw [htext, List.cons_append] at hnum ⊢
  rw [parseValue, skipSpace_cons hspace]
  split
  case h_7 => rw [hnum]; rfl
  -- no other value starts with a digit or a minus
  all_goals
    rename_i heq
    refine absurd (List.cons.inj heq).1 (not_digit_of_eq rfl (by decide) hc)

theorem reads_keyword {v : Value} (c : Char) (keyword : String)
    (hc : isSpace c = false ∧ c ≠ ']' ∧ c ≠ '\x7d')
    (h : ∀ fuel cs, parseValue (fuel + 1) (c :: cs) =
      (parseKeyword keyword cs).map fun rest => (v, rest)) :
    Reads v (c :: keyword.toList) := by
  refine ⟨⟨c, _, rfl, hc⟩, fun fuel rest hf _ => ?_⟩
  obtain ⟨fuel, rfl⟩ : ∃ k, fuel = k + 1 := ⟨fuel - 1, by rw [List.length_cons] at hf; omega⟩
  rw [List.cons_append, h, parseKeyword, if_pos (List.prefix_append _ _), ← String.length_toList,
    List.drop_left]
  rfl

theorem reads_str (s : String) : Reads (str s) (quote s) := by
  refine ⟨⟨'"', _, rfl, by decide⟩, fun fuel rest hf _ => ?_⟩
  obtain ⟨fuel, rfl⟩ : ∃ k, fuel = k + 1 :=
    ⟨fuel - 1, by simp only [quote, List.length_cons] at hf; omega⟩
  have hlen := length_le_flatMap_escape s.toList
  have hq : quote s ++ rest = '"' :: (s.toList.flatMap escape ++ '"' :: rest) := by simp [quote]
  have hs : parseString (s.toList.flatMap escape ++ '"' :: rest).length
      (s.toList.flatMap escape ++ '"' :: rest) = some (s.toList, rest) :=
    parseString_quote (by rw [List.length_append, List.length_cons]; omega)
  rw [hq, parseValue, skipSpace_cons (by decide)]
  simp only [hs, Option.map_some, String.ofList_toList]

theorem commas_singleton (t : List Char) : commas [t] = t := by simp [commas, List.intercalate]

theorem commas_cons_cons (t t' : List Char) (texts : List (List Char)) :
    commas (t :: t' :: texts) = t ++ ',' :: commas (t' :: texts) := by
  simp [commas, List.intercalate]

theorem endsNumber_cons {c : Char} (h : c = ',' ∨ c = ']' ∨ c = '\x7d') (rest : List Char) :
    EndsNumber (c :: rest) := by
  intro d hd
  obtain rfl : c = d := by simpa using hd
  obtain rfl | rfl | rfl := h <;> decide

/-- The elements of an array are read back. -/
theorem parseItems_commas {items : List Value} {texts : List (List Char)}
    (h : List.Forall₂ Reads items texts) : items ≠ [] → ∀ {fuel : ℕ} {rest : List Char},
      (commas texts).length < fuel → parseItems fuel (commas texts ++ ']' :: rest) = some
      (items, rest) := by
  induction h with
  | nil => exact fun h => absurd rfl h
  | @cons item t items texts hitem hitems ih =>
    intro _ fuel rest hf
    obtain ⟨fuel, rfl⟩ : ∃ k, fuel = k + 1 := ⟨fuel - 1, by omega⟩
    cases hitems with
    | nil =>
      rw [commas_singleton] at hf ⊢
      rw [parseItems, hitem.parse fuel _ (by omega) (endsNumber_cons (.inr (.inl rfl)) _)]
      simp only [Option.bind_eq_bind, Option.bind_some, skipSpace_cons (c := ']') rfl]
      rfl
    | @cons item' t' items texts hitem' hitems =>
      rw [commas_cons_cons] at hf ⊢
      rw [List.length_append, List.length_cons] at hf
      rw [List.append_assoc, parseItems, List.cons_append,
        hitem.parse fuel _ (by omega) (endsNumber_cons (.inl rfl) _)]
      simp only [Option.bind_eq_bind, Option.bind_some, skipSpace_cons (c := ',') rfl,
        ih (List.cons_ne_nil _ _) (by omega : (commas (t' :: texts)).length < fuel)]
      rfl

/-- The text of a member. -/
def ReadsMember (m : String × Value) (text : List Char) : Prop :=
  ∃ t, text = quote m.1 ++ ':' :: t ∧ Reads m.2 t

/-- The members of an object are read back. -/
theorem parseMembers_commas {members : List (String × Value)} {texts : List (List Char)}
    (h : List.Forall₂ ReadsMember members texts) : members ≠ [] → ∀ {fuel : ℕ} {rest : List Char},
      (commas texts).length < fuel →
      parseMembers fuel (commas texts ++ '\x7d' :: rest) = some (members, rest) := by
  induction h with
  | nil => exact fun h => absurd rfl h
  | @cons m text members texts hm hmembers ih =>
    intro _ fuel rest hf
    obtain ⟨t, rfl, hm⟩ := hm
    obtain ⟨fuel, rfl⟩ : ∃ k, fuel = k + 1 := ⟨fuel - 1, by omega⟩
    have hkey : ∀ after : List Char, parseString (m.1.toList.flatMap escape ++ '"' :: after).length
        (m.1.toList.flatMap escape ++ '"' :: after) = some (m.1.toList, after) := fun after =>
      parseString_quote (by
        have := length_le_flatMap_escape m.1.toList
        rw [List.length_append, List.length_cons]
        omega)
    have hquote : ∀ after : List Char, quote m.1 ++ after =
        '"' :: (m.1.toList.flatMap escape ++ '"' :: after) :=
      fun after => by simp [quote]
    cases hmembers with
    | nil =>
      rw [commas_singleton] at hf ⊢
      simp only [List.length_append, List.length_cons] at hf
      rw [List.append_assoc, hquote, List.cons_append, parseMembers, skipSpace_cons rfl]
      simp only [hkey, Option.bind_eq_bind, Option.bind_some, skipSpace_cons (c := ':') rfl,
        hm.parse fuel _ (by omega) (endsNumber_cons (.inr (.inr rfl)) _),
          skipSpace_cons (c := '\x7d') rfl,
        String.ofList_toList]
      rfl
    | @cons m' text' members texts hm' hmembers =>
      rw [commas_cons_cons] at hf ⊢
      simp only [List.length_append, List.length_cons] at hf
      rw [List.append_assoc, List.append_assoc, hquote, List.cons_append,
        List.cons_append, parseMembers, skipSpace_cons rfl]
      simp only [hkey, Option.bind_eq_bind, Option.bind_some, skipSpace_cons (c := ':') rfl,
        hm.parse fuel _ (by omega) (endsNumber_cons (.inl rfl) _), skipSpace_cons (c := ',') rfl,
        ih (List.cons_ne_nil _ _) (by omega : (commas (text' :: texts)).length < fuel),
          String.ofList_toList]
      rfl

/-- Members with distinct names make the object with these members. -/
theorem makeObject_eq {members : List (String × Value)} (h : (keys members).Nodup) :
    makeObject members = obj members := by
  rw [makeObject, foldl_insert (by simpa using h), List.nil_append]

theorem reads_arr {items : List Value} {texts : List (List Char)}
    (h : List.Forall₂ Reads items texts) :
    Reads (arr items) ('[' :: (commas texts ++ [']'])) := by
  refine ⟨⟨'[', _, rfl, by decide⟩, fun fuel rest hf hr => ?_⟩
  simp only [List.length_cons, List.length_append, List.length_nil] at hf
  obtain ⟨fuel, rfl⟩ : ∃ k, fuel = k + 1 := ⟨fuel - 1, by omega⟩
  rw [List.cons_append, List.append_assoc, List.singleton_append, parseValue, skipSpace_cons rfl]
  cases h with
  | nil => rfl
  | @cons item t items texts hitem hitems =>
    have hp : parseItems fuel (commas (t :: texts) ++ ']' :: rest) = some (item :: items, rest) :=
      parseItems_commas (.cons hitem hitems) (List.cons_ne_nil _ _) (by omega)
    obtain ⟨c, cs, ht, hc, hne, -⟩ := hitem.start
    obtain ⟨cs', hcs⟩ : ∃ cs', commas (t :: texts) ++ ']' :: rest = c :: cs' := by
      cases texts with
      | nil => exact ⟨_, by rw [commas_singleton, ht]; rfl⟩
      | cons t' texts => exact ⟨_, by rw [commas_cons_cons, ht]; rfl⟩
    rw [hcs] at hp ⊢
    simp only [skipSpace_cons hc]
    split
    · rename_i heq
      exact absurd (List.cons.inj heq).1 hne
    · rw [hp]
      rfl

theorem reads_obj {members : List (String × Value)} {texts : List (List Char)}
    (hn : (keys members).Nodup) (h : List.Forall₂ ReadsMember members texts) :
    Reads (obj members) ('\x7b' :: (commas texts ++ ['\x7d'])) := by
  refine ⟨⟨'\x7b', _, rfl, by decide⟩, fun fuel rest hf hr => ?_⟩
  simp only [List.length_cons, List.length_append, List.length_nil] at hf
  obtain ⟨fuel, rfl⟩ : ∃ k, fuel = k + 1 := ⟨fuel - 1, by omega⟩
  rw [List.cons_append, List.append_assoc, List.singleton_append, parseValue, skipSpace_cons rfl]
  cases h with
  | nil => rfl
  | @cons m text members texts hm hmembers =>
    have hp : parseMembers fuel (commas (text :: texts) ++ '\x7d' :: rest) =
        some (m :: members, rest) :=
      parseMembers_commas (.cons hm hmembers) (List.cons_ne_nil _ _) (by omega)
    obtain ⟨t, ht, -⟩ := hm
    obtain ⟨cs', hcs⟩ : ∃ cs', commas (text :: texts) ++ '\x7d' :: rest = '"' :: cs' := by
      cases texts with
      | nil => exact ⟨_, by rw [commas_singleton, ht]; rfl⟩
      | cons t' texts => exact ⟨_, by rw [commas_cons_cons, ht]; rfl⟩
    rw [hcs] at hp ⊢
    simp only [skipSpace_cons (c := '"') rfl]
    split
    · rename_i heq
      exact absurd (List.cons.inj heq).1 (by decide)
    · rw [hp, Option.map_some, makeObject_eq hn]

/-- A JSON value has a text, which is read as the value. -/
theorem exists_reads {v : Value} (h : v.IsJson) :
    ∃ text, stringify v = some text ∧ Reads v text := by
  induction h with
  | @leaf l hl =>
    rw [stringify]
    match l, hl with
    | .null, _ => exact ⟨_, rfl, reads_keyword 'n' "ull" (by decide) fun _ _ => rfl⟩
    | .bool true, _ => exact ⟨_, rfl, reads_keyword 't' "rue" (by decide) fun _ _ => rfl⟩
    | .bool false, _ => exact ⟨_, rfl, reads_keyword 'f' "alse" (by decide) fun _ _ => rfl⟩
    | .num n, _ => exact ⟨_, rfl, reads_num n⟩
    | .str s, _ => exact ⟨_, rfl, reads_str s⟩
  | @arr items hjson ih =>
    refine ⟨_, rfl, reads_arr ?_⟩
    clear hjson
    induction items with
    | nil => exact .nil
    | cons item items ihs =>
      obtain ⟨⟨t, ht, hr⟩, ih⟩ := List.forall_mem_cons.mp ih
      rw [itemTexts, ht]
      exact .cons hr (ihs ih)
  | @obj members hn hjson ih =>
    refine ⟨_, rfl, reads_obj hn ?_⟩
    clear hn hjson
    induction members with
    | nil => exact .nil
    | cons m members ihs =>
      obtain ⟨⟨t, ht, hr⟩, ih⟩ := List.forall_mem_cons.mp ih
      rw [memberTexts, ht]
      exact .cons ⟨t, rfl, hr⟩ (ihs ih)

/-- `JSON.parse(JSON.stringify(value))` is the value. -/
theorem parse_stringify {v : Value} (h : v.IsJson) : (stringify v).bind parse = some v := by
  obtain ⟨text, ht, hr⟩ := exists_reads h
  have hp := hr.parse (text.length + 1) [] (by omega) nofun
  rw [List.append_nil] at hp
  rw [ht, Option.bind_some, Json.parse, hp]
  rfl

/-! ## What is read -/

theorem isJson_makeObject {members : List (String × Value)} (h : ∀ m ∈ members, m.2.IsJson) :
    (makeObject members).IsJson := by
  have hfold : ∀ {acc : List (String × Value)}, (keys acc).Nodup → (∀ m ∈ acc, m.2.IsJson) →
      (obj (members.foldl (fun members m => insert m.1 m.2 members) acc)).IsJson := by
    induction members with
    | nil => exact fun hn hacc => .obj hn hacc
    | cons m members ih =>
      intro acc hn hacc
      obtain ⟨hm, hmembers⟩ := List.forall_mem_cons.mp h
      refine ih hmembers (nodup_insert _ hn) fun m' hm' => ?_
      obtain rfl | hm' := mem_of_mem_insert hm'
      · exact hm
      · exact hacc m' hm'
  exact hfold List.nodup_nil nofun

/-- What is read is made of JSON values. -/
def ReadsJson (fuel : ℕ) : Prop :=
  (∀ cs v rest, parseValue fuel cs = some (v, rest) → v.IsJson) ∧
    (∀ cs items rest, parseItems fuel cs = some (items, rest) → ∀ x ∈ items, x.IsJson) ∧
    ∀ cs members rest, parseMembers fuel cs = some (members, rest) → ∀ m ∈ members, m.2.IsJson

theorem readsJson (fuel : ℕ) : ReadsJson fuel := by
  induction fuel with
  | zero => exact ⟨fun _ _ _ h => (by cases h), fun _ _ _ h => (by cases h),
      fun _ _ _ h => (by cases h)⟩
  | succ fuel ih =>
    obtain ⟨hvalue, hitems, hmembers⟩ := ih
    refine ⟨fun cs v rest h => ?_, fun cs items rest h => ?_, fun cs members rest h => ?_⟩
    · rw [parseValue] at h
      split at h
      case h_1 =>
        obtain ⟨⟨s, rest'⟩, -, heq⟩ := Option.map_eq_some_iff.mp h
        cases heq
        exact .leaf rfl
      case h_2 =>
        split at h
        case h_1 =>
          cases h
          exact .arr nofun
        case h_2 =>
          obtain ⟨⟨items, rest'⟩, hread, heq⟩ := Option.map_eq_some_iff.mp h
          cases heq
          exact .arr (hitems _ _ _ hread)
      case h_3 =>
        split at h
        case h_1 =>
          cases h
          exact .obj List.nodup_nil nofun
        case h_2 =>
          obtain ⟨⟨members, rest'⟩, hread, heq⟩ := Option.map_eq_some_iff.mp h
          cases heq
          exact isJson_makeObject (hmembers _ _ _ hread)
      case h_4 =>
        obtain ⟨rest', -, heq⟩ := Option.map_eq_some_iff.mp h
        cases heq
        exact .leaf rfl
      case h_5 =>
        obtain ⟨rest', -, heq⟩ := Option.map_eq_some_iff.mp h
        cases heq
        exact .leaf rfl
      case h_6 =>
        obtain ⟨rest', -, heq⟩ := Option.map_eq_some_iff.mp h
        cases heq
        exact .leaf rfl
      case h_7 =>
        obtain ⟨⟨n, rest'⟩, -, heq⟩ := Option.map_eq_some_iff.mp h
        cases heq
        exact .leaf rfl
    · rw [parseItems] at h
      obtain ⟨⟨item, rest₁⟩, hitem, h⟩ := Option.bind_eq_some_iff.mp h
      dsimp only at h
      split at h
      case h_1 =>
        obtain ⟨⟨items', rest₂⟩, hread, h⟩ := Option.bind_eq_some_iff.mp h
        cases h
        exact List.forall_mem_cons.mpr ⟨hvalue _ _ _ hitem, hitems _ _ _ hread⟩
      case h_2 =>
        cases h
        exact List.forall_mem_singleton.mpr (hvalue _ _ _ hitem)
      case h_3 => cases h
    · rw [parseMembers] at h
      split at h
      case h_2 => cases h
      case h_1 =>
        obtain ⟨⟨key, rest₁⟩, -, h⟩ := Option.bind_eq_some_iff.mp h
        dsimp only at h
        split at h
        case h_2 => cases h
        case h_1 =>
          obtain ⟨⟨value, rest₂⟩, hread, h⟩ := Option.bind_eq_some_iff.mp h
          dsimp only at h
          split at h
          case h_1 =>
            obtain ⟨⟨members', rest₃⟩, hrest, h⟩ := Option.bind_eq_some_iff.mp h
            cases h
            exact List.forall_mem_cons.mpr ⟨hvalue _ _ _ hread, hmembers _ _ _ hrest⟩
          case h_2 =>
            cases h
            exact List.forall_mem_singleton.mpr (hvalue _ _ _ hread)
          case h_3 => cases h

theorem isJson_of_parse {text : List Char} {v : Value} (h : parse text = some v) : v.IsJson := by
  rw [parse] at h
  split at h
  case h_1 value rest hread =>
    split at h
    case isTrue =>
      cases h
      exact (readsJson _).1 _ _ _ hread
    case isFalse => cases h
  case h_2 => cases h

end IdentityCommon.Ecma.Json
