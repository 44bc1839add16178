import IdentityCommon.Ecma.Text
import IdentityCommon.Jades.Verifier

/-!
# Query parameters

`URLSearchParams`, and `decodeURIComponent`.

## Main definitions

- `UrlSearchParams.serialize`, `UrlSearchParams.parse` — the text of some parameters, and the
  parameters of a text
- `decodeURIComponent` — a text with percent-encoded parts

## Main results

- `UrlSearchParams.parse_serialize` — the text of some parameters is read as them
- `decodeURIComponent_of_not_mem` — a text without percent signs is decoded to itself

## Design notes

The parameters of a text are read from its characters: separators are single bytes in UTF-8, so that
it is the same to split a text and its bytes.
-/

namespace IdentityCommon.Ecma

open Common Json

/-! ## Percent encoding -/

/-- A digit of base 16, with capitals. -/
def upperHexDigit (n : ℕ) : Char := (hexDigit n).toUpper

/-- `%XX`. -/
def percentEncodeByte (byte : UInt8) : List Char :=
  ['%', upperHexDigit (byte.toNat / 16), upperHexDigit (byte.toNat % 16)]

/-- The byte with the two digits. -/
def hexByte (a b : Char) : Option UInt8 := do
  let a ← hexValue a
  let b ← hexValue b
  some (UInt8.ofNat (a * 16 + b))

/-- The bytes of a text, where `%XX` stands for a byte and any other percent sign for itself. -/
def percentDecode : List Char → List UInt8
  | '%' :: a :: b :: rest => match hexByte a b with
    | some byte => byte :: percentDecode rest
    | none => 0x25 :: percentDecode (a :: b :: rest)
  | c :: rest => String.utf8EncodeChar c ++ percentDecode rest
  | [] => []

theorem hexByte_percentEncodeByte (byte : UInt8) :
    hexByte (upperHexDigit (byte.toNat / 16)) (upperHexDigit (byte.toNat % 16)) = some byte := by
  have hdigit : ∀ n < 16, hexValue (upperHexDigit n) = some n := by decide
  have hlt := byte.toNat_lt
  rw [hexByte, hdigit _ (by omega), hdigit _ (by omega)]
  show some (UInt8.ofNat (byte.toNat / 16 * 16 + byte.toNat % 16)) = some byte
  rw [Nat.div_add_mod', UInt8.ofNat_toNat]

theorem percentDecode_of_ne {c : Char} (h : c ≠ '%') (rest : List Char) :
    percentDecode (c :: rest) = String.utf8EncodeChar c ++ percentDecode rest := by
  rw [percentDecode]
  exact fun a b rest' hc _ => h hc

/-! ## Parameters -/

namespace UrlSearchParams

/-- A character that stands for itself in a serialized parameter. -/
def isUnreserved (c : Char) : Bool :=
  c.isDigit || c.isUpper || c.isLower || c = '*' || c = '-' || c = '.' || c = '_'

def encodeByte (byte : UInt8) : List Char :=
  if byte = 0x20 then ['+']
  else if byte < 0x80 && isUnreserved (Char.ofNat byte.toNat) then [Char.ofNat byte.toNat]
  else percentEncodeByte byte

/-- A name or a value, serialized. -/
def encode (s : String) : List Char := (stringToBytes s).flatMap encodeByte

/-- `params.toString()`. -/
def serialize (params : List (String × String)) : List Char :=
  ['&'].intercalate (params.map fun param => encode param.1 ++ '=' :: encode param.2)

/-- A name or a value, from its text. -/
def decode (cs : List Char) : String :=
  Jades.bytesToText (percentDecode (cs.map fun c => if c = '+' then ' ' else c))

/-- The parameters of a text without its question mark. -/
def parse (cs : List Char) : List (String × String) :=
  ((splitChars '&' cs).filter (· ≠ [])).map fun part =>
    (decode (part.takeWhile (· ≠ '=')), decode ((part.dropWhile (· ≠ '=')).drop 1))

/-- `[...new URLSearchParams(search).entries()]`. -/
def entries (search : String) : List (String × String) :=
  match search.toList with
  | '?' :: cs => parse cs
  | cs => parse cs

/-! ### The round trip -/

/-- What the characters of a serialized name or value are. -/
def isEncodedChar (c : Char) : Bool := isUnreserved c || c = '+' || c = '%'

theorem isUnreserved_upperHexDigit : ∀ n < 16, isUnreserved (upperHexDigit n) = true := by decide

theorem isEncodedChar_encodeByte (byte : UInt8) :
    ∀ c ∈ encodeByte byte, isEncodedChar c = true := by
  have hlt := byte.toNat_lt
  intro c hc
  rw [encodeByte] at hc
  split_ifs at hc with hspace hunreserved
  · obtain rfl := List.mem_singleton.mp hc
    rfl
  · obtain rfl := List.mem_singleton.mp hc
    rw [isEncodedChar, (Bool.and_eq_true_iff.mp hunreserved).2]
    rfl
  · rcases List.mem_cons.mp hc with rfl | hc
    · rfl
    · rcases List.mem_pair.mp hc with rfl | rfl
      · rw [isEncodedChar, isUnreserved_upperHexDigit _ (by omega)]
        rfl
      · rw [isEncodedChar, isUnreserved_upperHexDigit _ (by omega)]
        rfl

theorem isEncodedChar_encode {s : String} {c : Char} (h : c ∈ encode s) :
    isEncodedChar c = true := by
  obtain ⟨byte, -, hc⟩ := List.mem_flatMap.mp h
  exact isEncodedChar_encodeByte byte c hc

theorem not_mem_encode {c : Char} (h : isEncodedChar c = false) (s : String) : c ∉ encode s := by
  intro hc
  rw [isEncodedChar_encode hc] at h
  cases h

theorem utf8EncodeChar_ofNat {byte : UInt8} (h : byte < 0x80) :
    String.utf8EncodeChar (Char.ofNat byte.toNat) = [byte] := by
  have hascii : ∀ n < 128, String.utf8EncodeChar (Char.ofNat n) = [UInt8.ofNat n] := by decide
  have hlt : byte.toNat < 128 := h
  rw [hascii _ hlt, UInt8.ofNat_toNat]

theorem percentDecode_encodeByte (byte : UInt8) (rest : List Char) :
    percentDecode ((encodeByte byte ++ rest).map fun c => if c = '+' then ' ' else c) =
      byte :: percentDecode (rest.map fun c => if c = '+' then ' ' else c) := by
  have hlt := byte.toNat_lt
  have hplus : ∀ {c : Char}, isUnreserved c = true → c ≠ '+' ∧ c ≠ '%' := by
    rintro c hc
    constructor <;> rintro rfl <;> exact absurd hc (by decide)
  rw [List.map_append, encodeByte]
  split_ifs with hspace hunreserved
  · subst hspace
    exact percentDecode_of_ne (by decide) _
  · obtain ⟨hascii, hunreserved⟩ := Bool.and_eq_true_iff.mp hunreserved
    obtain ⟨hne, hpercent⟩ := hplus hunreserved
    rw [List.map_singleton, if_neg hne, List.singleton_append, percentDecode_of_ne hpercent,
      utf8EncodeChar_ofNat (of_decide_eq_true hascii)]
    rfl
  · have hhigh := (hplus (isUnreserved_upperHexDigit (byte.toNat / 16) (by omega))).1
    have hlow := (hplus (isUnreserved_upperHexDigit (byte.toNat % 16) (by omega))).1
    rw [percentEncodeByte, List.map_cons, List.map_cons, List.map_singleton, if_neg (by decide),
      if_neg hhigh, if_neg hlow]
    show percentDecode ('%' :: upperHexDigit (byte.toNat / 16) :: upperHexDigit
      (byte.toNat % 16) :: _) = _
    rw [percentDecode, hexByte_percentEncodeByte]
    rfl

theorem decode_encode (s : String) : decode (encode s) = s := by
  have hbytes : ∀ bytes : List UInt8,
      percentDecode ((bytes.flatMap encodeByte).map fun c => if c = '+' then ' ' else c) =
        bytes := by
    intro bytes
    induction bytes with
    | nil => rfl
    | cons byte bytes ih => rw [List.flatMap_cons, percentDecode_encodeByte, ih]
  rw [decode, encode, hbytes, Jades.bytesToText_stringToBytes]

theorem parse_serialize (params : List (String × String)) : parse (serialize params) = params := by
  have hequals : ∀ s, ∀ c ∈ encode s, decide (c ≠ '=') = true := by
    intro s c hc
    refine decide_eq_true ?_
    rintro rfl
    exact not_mem_encode rfl s hc
  have hpart : ∀ param : String × String, '&' ∉ encode param.1 ++ '=' :: encode param.2 := by
    intro param hmem
    rcases List.mem_append.mp hmem with hmem | hmem
    · exact not_mem_encode rfl _ hmem
    · rcases List.mem_cons.mp hmem with hmem | hmem
      · exact absurd hmem (by decide)
      · exact not_mem_encode rfl _ hmem
  cases params with
  | nil => rfl
  | cons param params =>
    rw [parse, serialize, splitChars_intercalate (by simp)]
    · have hne : ∀ part ∈ (param :: params).map (fun p => encode p.1 ++ '=' :: encode p.2),
          decide (part ≠ []) = true := by
        intro part hmem
        obtain ⟨p, -, rfl⟩ := List.mem_map.mp hmem
        exact decide_eq_true (List.append_ne_nil_of_right_ne_nil _ (List.cons_ne_nil _ _))
      rw [List.filter_eq_self.mpr hne, List.map_map]
      refine (List.map_congr_left fun p _ => ?_).trans (List.map_id _)
      rw [Function.comp_apply, List.takeWhile_append_of_pos (hequals p.1),
        List.dropWhile_append_of_pos (hequals p.1), List.takeWhile_cons_of_neg (by simp),
        List.dropWhile_cons_of_neg (by simp), List.append_nil, List.drop_one, List.tail_cons,
        decode_encode, decode_encode]
      rfl
    · intro part hmem
      obtain ⟨p, -, rfl⟩ := List.mem_map.mp hmem
      exact hpart p

/-- The characters of some serialized parameters. -/
def isSerializedChar (c : Char) : Bool := isEncodedChar c || c = '&' || c = '='

theorem isSerializedChar_serialize (params : List (String × String)) :
    ∀ c ∈ serialize params, isSerializedChar c = true := by
  have hencode : ∀ s, ∀ c ∈ encode s, isSerializedChar c = true := by
    intro s c hc
    rw [isSerializedChar, isEncodedChar_encode hc]
    rfl
  have hparam : ∀ param : String × String, ∀ c ∈ encode param.1 ++ '=' :: encode param.2,
      isSerializedChar c = true := by
    intro param c hc
    rcases List.mem_append.mp hc with hc | hc
    · exact hencode _ c hc
    · rcases List.mem_cons.mp hc with rfl | hc
      · rfl
      · exact hencode _ c hc
  intro c hc
  induction params with
  | nil => cases hc
  | cons param params ih =>
    cases params with
    | nil =>
      rw [serialize, List.map_singleton, List.intercalate_singleton] at hc
      exact hparam param c hc
    | cons param' params =>
      rw [serialize, List.map_cons, List.map_cons, List.intercalate_cons_cons] at hc
      rcases List.mem_append.mp hc with hc | hc
      · rcases List.mem_append.mp hc with hc | hc
        · exact hparam param c hc
        · obtain rfl := List.mem_singleton.mp hc
          rfl
      · exact ih hc

theorem entries_serialize (params : List (String × String)) :
    entries (String.ofList ('?' :: serialize params)) = params := by
  rw [entries, String.toList_ofList]
  exact parse_serialize params

end UrlSearchParams

/-! ## `decodeURIComponent` -/

/-- That many percent-encoded bytes. -/
def takeEncoded : ℕ → List Char → Option (List UInt8 × List Char)
  | 0, cs => some ([], cs)
  | n + 1, '%' :: a :: b :: rest => do
    let byte ← hexByte a b
    let (bytes, rest) ← takeEncoded n rest
    some (byte :: bytes, rest)
  | _ + 1, _ => none

/-- The number of bytes of a character, by the first of them; no character starts with one of those
that are left. -/
def encodedSize (byte : UInt8) : ℕ :=
  if byte < 0x80 then 1 else if byte < 0xE0 then 2 else if byte < 0xF0 then 3 else 4

/-- A percent-encoded character; none where the bytes are not UTF-8. -/
def takeCharacter (cs : List Char) : Option (List Char × List Char) := do
  let (first, _) ← takeEncoded 1 cs
  let (bytes, rest) ← takeEncoded (encodedSize (first.headD 0)) cs
  let text ← String.fromUTF8? ⟨bytes.toArray⟩
  some (text.toList, rest)

def decodeCharacters : ℕ → List Char → Option (List Char)
  | _, [] => some []
  | 0, _ => none
  | fuel + 1, c :: rest =>
    if c = '%' then do
      let (text, rest) ← takeCharacter (c :: rest)
      let cs ← decodeCharacters fuel rest
      some (text ++ cs)
    else (decodeCharacters fuel rest).map (c :: ·)

/-- `decodeURIComponent(text)`. -/
def decodeURIComponent (text : List Char) : Option (List Char) := decodeCharacters text.length text

example : decodeURIComponent "50%25 %C3%A9".toList = some "50% é".toList := by decide +kernel

theorem decodeURIComponent_of_not_mem {text : List Char} (h : '%' ∉ text) :
    decodeURIComponent text = some text := by
  rw [decodeURIComponent]
  induction text with
  | nil => rfl
  | cons c text ih =>
    obtain ⟨hc, htext⟩ := not_or.mp (List.mem_cons.not.mp h)
    rw [List.length_cons, decodeCharacters, if_neg (Ne.symm hc), ih htext]
    rfl

end IdentityCommon.Ecma
