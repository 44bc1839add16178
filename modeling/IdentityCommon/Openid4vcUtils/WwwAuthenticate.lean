import IdentityCommon.Oauth2.Fetch
import IdentityCommon.Lib.OrderedMap

/-!
# WWW-Authenticate headers

Parsing and encoding of the challenges in a `WWW-Authenticate` header, on the characters of the
header. A regular expression is the function that computes its match; the texts of all its groups
are read off the characters.

## Main definitions

- `body`, `parsePayload` — the parameters of a challenge
- `execAdditional`, `parseWwwAuthenticateHeader` — the challenges of a header
- `encodeWwwAuthenticateHeader` — the header of challenges
-/

namespace IdentityCommon.Openid4vcUtils

open Ecma AssocList Value Oauth2

/-! ## Parameters -/

/-- What `.` does not match. -/
def isLineTerminator (c : Char) : Bool := c ∈ ['\n', '\r', '\u2028', '\u2029']

/-- The replacement of `\\(.)` by its group. -/
def unescape : List Char → List Char
  | [] => []
  | [c] => [c]
  | c :: d :: text =>
    if c = '\\' && !isLineTerminator d then d :: unescape text else c :: unescape (d :: text)

def unquote (value : List Char) : List Char := unescape value.tail.dropLast

def sanitize (value : List Char) : String :=
  if value.head? = some '"' then String.ofList (unquote value) else trim (String.ofList value)

/-- Letters, digits and the characters `._~+-` and slash. -/
def isToken68Char (c : Char) : Bool :=
  'a' ≤ c && c ≤ 'z' || 'A' ≤ c && c ≤ 'Z' || '0' ≤ c && c ≤ '9' ||
    c ∈ ['.', '_', '~', '+', '/', '-']

/-- The class of the characters of a name:
`[^\u0000-\u001F\u007F()<>@,;:\\"/?={}[\]\u0020\u0009]`. -/
def isNameChar (c : Char) : Bool :=
  '\u001f' < c && c ∉ ['\u007f', '(', ')', '<', '>', '@', ',', ';', ':', '\\', '"', '/', '?', '=',
    '\x7b', '\x7d', '[', ']', ' ']

/-- `[^\\"=\s,]`. -/
def isValueChar (c : Char) : Bool := c ∉ ['\\', '"', '=', ','] && !isWhitespace c

/-- The first alternative of the first group, at the front of a text: characters of `isToken68Char`,
`=*` and `(?:\s+|$)`, with the text after it. Only the longest run of each class is followed by what
comes next. -/
def matchToken68 (text : List Char) : Option (List Char × List Char) :=
  let chars := text.takeWhile isToken68Char
  let rest := text.dropWhile isToken68Char
  let padding := rest.takeWhile (· = '=')
  let rest := rest.dropWhile (· = '=')
  let spaces := rest.takeWhile isWhitespace
  if chars ≠ [] ∧ (spaces ≠ [] ∨ rest = []) then
    some (chars ++ padding ++ spaces, rest.dropWhile isWhitespace)
  else none

/-- The first group of the expression. -/
def matchKey (text : List Char) : Option (List Char × List Char) :=
  (matchToken68 text).or <|
    let name := text.takeWhile isNameChar
    if name ≠ [] then some (name, text.dropWhile isNameChar) else none

/-- `(?:[^"\\]|\\.)*"`, after the quote that opens the string. -/
def matchQuoted : List Char → Option (List Char × List Char)
  | [] => none
  | [c] => if c = '"' then some (['"'], []) else none
  | c :: d :: text =>
    if c = '"' then some (['"'], d :: text)
    else if c = '\\' then
      if isLineTerminator d then none else (matchQuoted text).map fun m => (c :: d :: m.1, m.2)
    else (matchQuoted (d :: text)).map fun m => (c :: m.1, m.2)

/-- The second group of the expression, after the `=`. -/
def matchValue (text : List Char) : Option (List Char × List Char) :=
  let value := text.takeWhile isValueChar
  if value ≠ [] then some (value, text.dropWhile isValueChar)
  else match text with
    | '"' :: text => (matchQuoted text).map fun m => ('"' :: m.1, m.2)
    | _ => none

/-- A match of `body`, with the text after it. -/
structure BodyMatch where
  key : List Char
  newValue : Option (List Char)
  rest : List Char

/-- A match at the front of a text. -/
def bodyAt (text : List Char) : Option BodyMatch :=
  (matchKey text).map fun (key, rest) =>
    match rest with
    | '=' :: value => match matchValue value with
      | some (newValue, rest) => ⟨key, some newValue, rest⟩
      | none => ⟨key, none, rest⟩
    | _ => ⟨key, none, rest⟩

/-- `body.exec(string)`, from the index on at which the text begins. -/
def body : List Char → Option BodyMatch
  | [] => none
  | c :: text => (bodyAt (c :: text)).or (body text)

/-- What a match covers. -/
def BodyMatch.text (m : BodyMatch) : List Char := m.key ++ m.newValue.elim [] ('=' :: ·)

theorem eq_of_matchToken68 {text key rest : List Char} (h : matchToken68 text = some (key, rest)) :
    text = key ++ rest ∧ key ≠ [] := by
  unfold matchToken68 at h
  dsimp only at h
  split_ifs at h with hif
  cases h
  refine ⟨?_, fun hnil => hif.1 ?_⟩
  · rw [List.append_assoc, List.takeWhile_append_dropWhile, List.append_assoc,
      List.takeWhile_append_dropWhile, List.takeWhile_append_dropWhile]
  · exact (List.append_eq_nil_iff.mp (List.append_eq_nil_iff.mp hnil).1).1

theorem eq_of_matchKey {text key rest : List Char} (h : matchKey text = some (key, rest)) :
    text = key ++ rest ∧ key ≠ [] := by
  unfold matchKey at h
  rcases Option.or_eq_some_iff.mp h with h | ⟨-, h⟩
  · exact eq_of_matchToken68 h
  · dsimp only at h
    split_ifs at h with hif
    cases h
    exact ⟨List.takeWhile_append_dropWhile.symm, hif⟩

theorem eq_of_matchQuoted {text value rest : List Char}
    (h : matchQuoted text = some (value, rest)) :
    text = value ++ rest := by
  fun_induction matchQuoted text generalizing value with
  | case1 => cases h
  | case2 =>
    cases h
    rfl
  | case3 => cases h
  | case4 d text =>
    cases h
    rfl
  | case5 => cases h
  | case6 d text hc hd ih =>
    obtain ⟨⟨value', rest'⟩, hm, heq⟩ := Option.map_eq_some_iff.mp h
    cases heq
    rw [ih hm]
    rfl
  | case7 c d text hquote hc ih =>
    obtain ⟨⟨value', rest'⟩, hm, heq⟩ := Option.map_eq_some_iff.mp h
    cases heq
    rw [ih hm]
    rfl

theorem eq_of_matchValue {text value rest : List Char} (h : matchValue text = some (value, rest)) :
    text = value ++ rest ∧ value ≠ [] := by
  unfold matchValue at h
  dsimp only at h
  split_ifs at h with hif
  · cases h
    exact ⟨List.takeWhile_append_dropWhile.symm, hif⟩
  · split at h
    · obtain ⟨⟨value', rest'⟩, hm, heq⟩ := Option.map_eq_some_iff.mp h
      cases heq
      exact ⟨congrArg _ (eq_of_matchQuoted hm), List.cons_ne_nil _ _⟩
    · cases h

theorem eq_of_bodyAt {text : List Char} {m : BodyMatch} (h : bodyAt text = some m) :
    text = m.text ++ m.rest ∧ m.key ≠ [] := by
  obtain ⟨⟨key, rest⟩, hkey, hm⟩ := Option.map_eq_some_iff.mp h
  obtain ⟨rfl, hne⟩ := eq_of_matchKey hkey
  dsimp only at hm
  split at hm
  · split at hm
    case h_1 value newValue rest hvalue =>
      subst hm
      refine ⟨?_, hne⟩
      rw [BodyMatch.text, Option.elim_some, (eq_of_matchValue hvalue).1, List.append_assoc]
      rfl
    case h_2 =>
      subst hm
      exact ⟨by rw [BodyMatch.text, Option.elim_none, List.append_nil], hne⟩
  · subst hm
    exact ⟨by rw [BodyMatch.text, Option.elim_none, List.append_nil], hne⟩

theorem eq_of_body {text : List Char} {m : BodyMatch} (h : body text = some m) :
    (∃ skipped, text = skipped ++ (m.text ++ m.rest)) ∧ m.key ≠ [] := by
  induction text with
  | nil => cases h
  | cons c text ih =>
    rcases Option.or_eq_some_iff.mp h with h | ⟨-, h⟩
    · exact ⟨⟨[], (eq_of_bodyAt h).1⟩, (eq_of_bodyAt h).2⟩
    · obtain ⟨⟨skipped, heq⟩, hne⟩ := ih h
      exact ⟨⟨c :: skipped, congrArg _ heq⟩, hne⟩

theorem length_rest_lt {text : List Char} {m : BodyMatch} (h : body text = some m) :
    m.rest.length < text.length := by
  obtain ⟨⟨skipped, heq⟩, hne⟩ := eq_of_body h
  have hpos := List.length_pos_iff.mpr hne
  rw [heq, BodyMatch.text]
  simp only [List.length_append]
  omega

/-- The names and values of the parameters, in their order. -/
def bodyMatches (text : List Char) : List (String × Option (List Char)) :=
  match _h : body text with
  | some m => (String.ofList m.key, m.newValue) :: bodyMatches m.rest
  | none => []
termination_by text.length
decreasing_by exact length_rest_lt _h

/-! ## Payloads -/

/-- The object `payload`: its members, and the array that was assigned to `__proto__`. -/
structure ParsedPayload where
  members : List (String × Value) := []
  prototype : Option (List Value) := none

namespace ParsedPayload

/-- `payload[key]`. -/
def read (payload : ParsedPayload) (key : String) : Value :=
  match payload.members.lookup key, payload.prototype with
  | some value, _ => value
  | none, none => inherited key
  | none, some items => if key = "__proto__" then arr items else property key (arr items)

/-- `payload[key] = value`. A text as the prototype is ignored; null is not assigned to it, since it
is never read. -/
def write (payload : ParsedPayload) (key : String) (value : Value) : ParsedPayload :=
  if key = "__proto__" then
    match value with
    | arr items => { payload with prototype := some items }
    | _ => payload
  else { payload with members := insert key value payload.members }

/-- The value of a parameter after another one. -/
def appended (payloadValue : Value) (sanitizedValue : String) : Value :=
  if payloadValue.truthy then
    match payloadValue with
    | arr items => arr (items ++ [str sanitizedValue])
    | _ => arr [payloadValue, str sanitizedValue]
  else str sanitizedValue

/-- The body of the loop. -/
def assign (payload : ParsedPayload) (m : String × Option (List Char)) : ParsedPayload :=
  let payloadValue := payload.read m.1
  match m.2 with
  | some newValue => payload.write m.1 (appended payloadValue (sanitize newValue))
  | none => if payloadValue.truthy then payload else payload.write m.1 null

end ParsedPayload

/-- A challenge that was parsed, with the own members of its payload. -/
structure ParsedChallenge where
  scheme : String
  payload : List (String × Value)

def parsePayload (scheme : String) (string : List Char) : ParsedChallenge :=
  ⟨scheme, ((bodyMatches string).foldl ParsedPayload.assign {}).members⟩

/-! ## Parsing -/

/-- The schemes that are looked for. -/
def wellKnownSchemes : List String := ["Bearer", "DPoP", "Basic"]

/-- What `(, ?)(Bearer|DPoP|Basic)` matches, with the scheme. -/
def separators : List (List Char × String) :=
  wellKnownSchemes.flatMap fun scheme => [(", ".toList ++ scheme.toList, scheme),
    (",".toList ++ scheme.toList, scheme)]

/-- What `endsWithSchemeRegex` leaves of a text, with the scheme. -/
def endsWithScheme (value : List Char) : Option (List Char × String) :=
  separators.findSome? fun m =>
    if m.1 <:+ value then some (value.take (value.length - m.1.length), m.2) else none

/-- A match of `additionalSchemesRegex`: the first group, the second and third one together and the
scheme. -/
structure SchemeMatch where
  before : List Char
  separator : List Char
  scheme : String

/-- The separator at the front of a text, if a comma or a space comes after it. -/
def separatorAt (value : List Char) : Option (List Char × String) :=
  separators.find? fun m => m.1 ++ [','] <+: value ∨ m.1 ++ [' '] <+: value

/-- `additionalSchemesRegex.exec(value)`, and the index where the match begins: after the last line
terminator before the first separator. -/
def execFrom : List Char → Option (ℕ × SchemeMatch)
  | [] => none
  | c :: value => match separatorAt (c :: value) with
    | some (separator, scheme) => some (0, ⟨[], separator, scheme⟩)
    | none => (execFrom value).map fun (index, m) =>
      if index = 0 && !isLineTerminator c then (0, { m with before := c :: m.before })
      else (index + 1, m)

def execAdditional (value : List Char) : Option SchemeMatch := (execFrom value).map Prod.snd

theorem separator_ne_nil : ∀ m ∈ separators, m.1 ≠ [] := by decide

theorem mem_of_separatorAt {value separator : List Char} {scheme : String}
    (h : separatorAt value = some (separator, scheme)) : (separator, scheme) ∈ separators :=
  List.mem_of_find?_eq_some h

theorem separator_of_execFrom {value : List Char} {m : ℕ × SchemeMatch}
    (h : execFrom value = some m) :
    (m.2.separator, m.2.scheme) ∈ separators ∧ value ≠ [] := by
  induction value generalizing m with
  | nil => cases h
  | cons c value ih =>
    refine ⟨?_, List.cons_ne_nil _ _⟩
    rw [execFrom] at h
    split at h
    case h_1 separator scheme hat =>
      cases h
      exact mem_of_separatorAt hat
    case h_2 =>
      obtain ⟨⟨index, m'⟩, hm, rfl⟩ := Option.map_eq_some_iff.mp h
      have hmem := (ih hm).1
      dsimp only
      split_ifs
      · exact hmem
      · exact hmem

theorem length_drop_lt {value : List Char} {m : SchemeMatch} (h : execAdditional value = some m) :
    (value.drop (m.before.length + m.separator.length)).length < value.length := by
  obtain ⟨m', hm, rfl⟩ := Option.map_eq_some_iff.mp h
  have hmem := separator_of_execFrom hm
  have hsep := List.length_pos_iff.mpr (separator_ne_nil _ hmem.1)
  have hvalue := List.length_pos_iff.mpr hmem.2
  dsimp only at hsep
  rw [List.length_drop]
  omega

/-- The loop over the matches, and the challenge after it. -/
def challengesFrom (scheme : String) (value : List Char) : List ParsedChallenge :=
  match _h : execAdditional value with
  | some m =>
    parsePayload scheme m.before :: challengesFrom m.scheme
      (value.drop (m.before.length + m.separator.length))
  | none => [parsePayload scheme value]
termination_by value.length
decreasing_by exact length_drop_lt _h

def parseWwwAuthenticateHeader (header : String) : List ParsedChallenge :=
  let text := header.toList
  let (scheme, value) :=
    if ' ' ∈ text then (text.takeWhile (· ≠ ' '), text.dropWhile (· ≠ ' ')) else ([], text)
  match endsWithScheme value with
  | some (value, last) => challengesFrom (String.ofList scheme) value ++ [⟨last, []⟩]
  | none => challengesFrom (String.ofList scheme) value

/-! ## Encoding -/

/-- The value of a member of a payload. -/
inductive PayloadValue
  | undefined
  | null
  | text (s : String)
  | texts (ss : List String)
  deriving DecidableEq

/-- A challenge, with the members of its payload in the order of their enumeration. -/
structure Challenge where
  scheme : String
  payload : OrderedMap String PayloadValue

/-- `[\x20-\x7E]`. -/
def isHeaderChar (c : Char) : Bool := ' ' ≤ c && c ≤ '~'

/-- A run of other characters is replaced at its last one. -/
def toHeaderText : List Char → List Char
  | [] => []
  | c :: text =>
    if isHeaderChar c then c :: toHeaderText text
    else if text.head?.any fun d => !isHeaderChar d then toHeaderText text
    else ' ' :: toHeaderText text

def maxErrorDescriptionLength : ℕ := 500

def escape (text : List Char) : List Char :=
  (text.flatMap fun c => if c = '\\' then ['\\', '\\'] else [c]).flatMap fun c =>
    if c = '"' then ['\\', '"'] else [c]

/-- `encode`, for the member `key`. -/
def encodeText (key : String) (s : String) : List Char :=
  let text := toHeaderText s.toList
  escape <| if key = "error_description" ∧ maxErrorDescriptionLength < text.length then
      text.take (maxErrorDescriptionLength - 3) ++ "...".toList
    else text

/-- A parameter of the header, with the text between its quotes. -/
structure Param where
  name : List Char
  quoted : Option (List Char)

def Param.text (p : Param) : List Char :=
  p.name ++ p.quoted.elim [] fun text => "=\"".toList ++ text ++ ['"']

/-- The parameters of a member. -/
def paramsOf (key : String) (value : PayloadValue) : List Param :=
  let name := toHeaderText key.toList
  match value with
  | .undefined => []
  | .null => [⟨name, none⟩]
  | .text s => if s = "" then [⟨name, none⟩] else [⟨name, some (encodeText key s)⟩]
  | .texts ss => ss.map fun s => ⟨name, some (encodeText key s)⟩

/-- The parameters of a challenge. -/
def Challenge.params (challenge : Challenge) : List Param :=
  challenge.payload.entries.flatMap fun m => paramsOf m.1 m.2

def encodeChallenge (challenge : Challenge) : List Char :=
  let encodedParams := challenge.params.map Param.text
  let scheme := toHeaderText challenge.scheme.toList
  if encodedParams = [] then scheme else scheme ++ [' '] ++ ", ".toList.intercalate encodedParams

def encodeWwwAuthenticateHeader (challenges : List Challenge) : String :=
  String.ofList (", ".toList.intercalate (challenges.map encodeChallenge))

example : encodeWwwAuthenticateHeader
    [⟨"Bearer", ⟨[("error", .undefined), ("scope", .text "openid"), ("name", .null)], by decide⟩⟩,
      ⟨"DPoP", ⟨[("error", .undefined)], by decide⟩⟩] = "Bearer scope=\"openid\", name, DPoP" := by
  decide

end IdentityCommon.Openid4vcUtils
