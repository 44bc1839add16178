import IdentityCommon.Ecma.Text
import IdentityCommon.Jades.Schemas
import IdentityCommon.Lib.Except

/-!
# Verification of a JAdES signature

A compact, general or flattened JWS, whose signature a callback verifies over the signing input.

## Main definitions

- `bytesToText` — the text of bytes that need not be UTF-8
- `parseSignature` — the header and the payload of a signature, and its signing input
- `verifyCompact`, `verifyGeneral`, `verifyFlattened`, `verify` — the result for a signature that
  the callback accepts

## Main results

- `parseSignature_of` — what the part of a JWS is parsed to
- `verifyPart_of` — the result for a part whose signing input the callback accepts

## Design notes

The callback is a function of the calls so far, so that it can answer a call differently when it is
made again. The issues of a schema are left out of the texts of the errors.
-/

namespace IdentityCommon.Jades

open Ecma AssocList Value Common IdentityCommon.Except

/-! ## Texts of bytes -/

/-- A sequence of UTF-8 that expects `needed` more bytes, the next one between `lower` and
`upper`. -/
structure PendingSequence where
  needed : ℕ
  codePoint : ℕ
  lower : ℕ
  upper : ℕ

def leadByte (b : ℕ) : Char ⊕ PendingSequence :=
  if b < 0x80 then .inl (Char.ofNat b)
  else if 0xC2 ≤ b ∧ b ≤ 0xDF then .inr ⟨1, b % 32, 0x80, 0xBF⟩
  else if 0xE0 ≤ b ∧ b ≤ 0xEF then
    .inr ⟨2, b % 16, if b = 0xE0 then 0xA0 else 0x80, if b = 0xED then 0x9F else 0xBF⟩
  else if 0xF0 ≤ b ∧ b ≤ 0xF4 then
    .inr ⟨3, b % 8, if b = 0xF0 then 0x90 else 0x80, if b = 0xF4 then 0x8F else 0xBF⟩
  else .inl '\ufffd'

/-- The characters of bytes, with a replacement character for each sequence that is not UTF-8. -/
def replaceInvalid : Option PendingSequence → List UInt8 → List Char
  | none, [] => []
  | some _, [] => ['\ufffd']
  | none, b :: bytes => match leadByte b.toNat with
    | .inl c => c :: replaceInvalid none bytes
    | .inr pending => replaceInvalid (some pending) bytes
  | some pending, b :: bytes =>
    if pending.lower ≤ b.toNat ∧ b.toNat ≤ pending.upper then
      let codePoint := pending.codePoint * 64 + b.toNat % 64
      if pending.needed = 1 then Char.ofNat codePoint :: replaceInvalid none bytes
      else replaceInvalid (some ⟨pending.needed - 1, codePoint, 0x80, 0xBF⟩) bytes
    -- the byte starts the next sequence
    else '\ufffd' :: match leadByte b.toNat with
      | .inl c => c :: replaceInvalid none bytes
      | .inr pending => replaceInvalid (some pending) bytes

def isUtf8 (bytes : List UInt8) : Bool := (String.fromUTF8? ⟨bytes.toArray⟩).isSome

/-- `bytesToString(bytes)`. -/
def bytesToText (bytes : List UInt8) : String :=
  match String.fromUTF8? ⟨bytes.toArray⟩ with
  | some s => s
  | none => String.ofList (replaceInvalid none bytes)

theorem fromUTF8?_stringToBytes (s : String) :
    String.fromUTF8? ⟨(stringToBytes s).toArray⟩ = some s := by
  have hb : (⟨(stringToBytes s).toArray⟩ : ByteArray) = s.toUTF8 := rfl
  rw [hb]
  exact dif_pos s.isValidUTF8

@[simp] theorem bytesToText_stringToBytes (s : String) : bytesToText (stringToBytes s) = s := by
  rw [bytesToText, fromUTF8?_stringToBytes]

/-- Bytes are those of their text exactly when they are UTF-8. -/
theorem stringToBytes_bytesToText {bytes : List UInt8} : stringToBytes (bytesToText bytes) = bytes ↔
    isUtf8 bytes = true := by
  constructor
  · intro h
    rw [isUtf8, ← h, fromUTF8?_stringToBytes]
    rfl
  · intro h
    obtain ⟨s, hs⟩ := Option.isSome_iff_exists.mp h
    rw [bytesToText, hs]
    have hvalid : ByteArray.IsValidUTF8 ⟨bytes.toArray⟩ := by
      by_contra hnot
      rw [String.fromUTF8?, dif_neg hnot] at hs
      cases hs
    rw [String.fromUTF8?, dif_pos hvalid] at hs
    obtain rfl := Option.some.inj hs
    rfl

/-! ## Callbacks and results -/

abbrev Bytes := List UInt8

inductive Error
  | jades (message : String)
  | other
  deriving DecidableEq

structure Call where
  data : String
  signature : String
  deriving DecidableEq

/-- The answer to a call, which is the first of the calls so far. -/
abbrev SignatureVerifier := List Call → Except Error Bool

inductive DetachedPayload
  | text (s : String)
  | bytes (b : Bytes)

structure VerifyOptions where
  detachedPayload : Option DetachedPayload := none
  signatureIndex : Option ℕ := none
  understoodCriticalParameters : List String := []

structure VerifyResult where
  header : Value
  payload : Value
  rawPayload : String
  rawPayloadBytes : Bytes
  unprotectedHeader : Option Value
  valid : Bool

structure ParsedSignature extends VerifyResult where
  signingInput : String
  signature : String

/-- What is verified of a JWS. -/
structure SignaturePart where
  encodedHeader : Option String
  payload : Option String
  signature : String
  unprotected : Value

section

variable (platform : Platform)

def parseProtected (encoded : Option String) : Except Error Value :=
  match encoded with
  | none => .error (.jades "JAdES requires a JWS Protected Header")
  | some encoded =>
    if encoded = "" then .error (.jades "JAdES requires a JWS Protected Header")
    else match base64urlDecodeJson encoded with
      | .error _ => .error (.jades "Invalid protected header encoding")
      | .ok raw => match zProtectedHeader platform raw with
        | none => .error (.jades "Invalid protected header")
        | some header => .ok header

def parseUnprotected (raw : Value) : Except Error (Option Value) :=
  match raw with
  | undefined => .ok none
  | raw => match zUnprotectedHeader platform raw with
    | none => .error (.jades "Invalid unprotected header")
    | some header => .ok (some header)

def DetachedPayload.toBytes : DetachedPayload → Bytes
  | text s => stringToBytes s
  | bytes b => b

/-- `JSON.parse(value)`, or the text itself. -/
def parsePayload (value : String) : Value :=
  if value = "" then undefined else (Json.parse value.toList).getD (str value)

/-- The mechanism contributes no payload to the signing input. -/
def isObjectDigest (header : Value) : Bool := isText objectByUriHash ((header.get "sigD").get "mId")

def isUnencoded (header : Value) : Bool := isFalse (header.get "b64")

def bytesToBase64Url (bytes : Bytes) : String := String.ofList (Base64url.encode bytes)

/-- The payload as it is signed. -/
def signingPayload (header : Value) (embedded : Option String) (supplied : Option Bytes) : String :=
  if isObjectDigest header then ""
  else match supplied with
    | none => embedded.getD ""
    | some bytes => if isUnencoded header then bytesToText bytes else bytesToBase64Url bytes

/-- The payload as it is embedded or signed, decoded. -/
def decodePayload (header : Value) (payload : String) : Except Error Bytes :=
  if isUnencoded header then .ok (stringToBytes payload)
  else (Base64url.decode payload.toList).mapError fun _ => .other

def rawPayloadBytes (header : Value) (embedded : Option String) (supplied : Option Bytes) :
    Except Error Bytes :=
  match supplied, embedded with
  | some bytes, _ => .ok bytes
  | none, none => .ok []
  | none, some embedded => decodePayload header embedded

def parseSignature (options : VerifyOptions) (part : SignaturePart) :
    Except Error ParsedSignature := do
  let header ← parseProtected platform part.encodedHeader
  let understood := criticalParameters ++ options.understoodCriticalParameters
  match (textsOf (header.get "crit")).find? (· ∉ understood) with
  | some parameter => throw (.jades ("Unsupported critical header parameter: " ++ parameter))
  | none => pure ()
  let supplied := options.detachedPayload.map DetachedPayload.toBytes
  if part.payload = none ∧ supplied = none ∧ !isObjectDigest header then
    throw (.jades "Detached JWS payload is required for verification")
  let bytes ← rawPayloadBytes header part.payload supplied
  let unprotectedHeader ← parseUnprotected platform part.unprotected
  return {
    header, payload := parsePayload (bytesToText bytes), rawPayload := bytesToText bytes,
    rawPayloadBytes := bytes
    unprotectedHeader, valid := true
    signingInput := part.encodedHeader.getD "" ++ "." ++ signingPayload header part.payload supplied
    signature := part.signature }

/-! ## Verification -/

variable (verifier : SignatureVerifier) (options : VerifyOptions)

def verifyParsed (parsed : ParsedSignature) (calls : List Call) :
    Except Error VerifyResult × List Call :=
  let calls := ⟨parsed.signingInput, parsed.signature⟩ :: calls
  match verifier calls with
  | .error e => (.error e, calls)
  | .ok false => (.error (.jades "Invalid signature"), calls)
  | .ok true => (.ok parsed.toVerifyResult, calls)

def verifyPart (part : Except Error SignaturePart) (calls : List Call) :
    Except Error VerifyResult × List Call :=
  match part.bind (parseSignature platform options) with
  | .error e => (.error e, calls)
  | .ok parsed => verifyParsed verifier parsed calls

def compactPart (jws : String) : Except Error SignaturePart :=
  match split jws '.' with
  | [header, payload, signature] => .ok ⟨some header, some payload, signature, undefined⟩
  | _ => .error (.jades "Invalid compact JWS: expected 3 parts")

def textOf? : Value → Option String
  | str s => some s
  | _ => none

def partOf (signature : Value) (payload : Value) : SignaturePart where
  encodedHeader := textOf? (signature.get "protected")
  payload := textOf? payload
  signature := (textOf? (signature.get "signature")).getD ""
  unprotected := signature.get "header"

def generalPart (jws : Value) (signatureIndex : ℕ) : Except Error SignaturePart :=
  match zGeneralJws jws with
  | none => .error (.jades "Invalid General JWS")
  | some data => match (itemsOf (data.get "signatures"))[signatureIndex]? with
    | none => .error (.jades s!"Signature at index {signatureIndex} not found")
    | some selected => .ok (partOf selected (data.get "payload"))

def flattenedPart (jws : Value) : Except Error SignaturePart :=
  match zFlattenedJws jws with
  | none => .error (.jades "Invalid Flattened JWS")
  | some data => .ok (partOf data (data.get "payload"))

def verifyCompact (jws : String) (calls : List Call) : Except Error VerifyResult × List Call :=
  verifyPart platform verifier options (compactPart jws) calls

def verifyGeneral (jws : Value) (signatureIndex : ℕ) (calls : List Call) :
    Except Error VerifyResult × List Call :=
  verifyPart platform verifier options (generalPart jws signatureIndex) calls

def verifyFlattened (jws : Value) (calls : List Call) : Except Error VerifyResult × List Call :=
  verifyPart platform verifier options (flattenedPart jws) calls

/-- `verify` of a JWS that is not a text. -/
def verifyValue (jws : Value) (calls : List Call) : Except Error VerifyResult × List Call :=
  match jws with
  -- `in` throws for what is not an object
  | undefined | null | .leaf (.bool _) | .leaf (.num _) | str _ | notDisclosed =>
      (.error .other, calls)
  | jws =>
    if hasMember "signatures" jws then
      verifyGeneral platform verifier options jws (options.signatureIndex.getD 0) calls
    else verifyFlattened platform verifier options jws calls

end

/-! ## Payloads -/

theorem decodePayload_empty (header : Value) : decodePayload header "" = .ok [] := by
  unfold decodePayload
  split <;> rfl

theorem signingPayload_of_isObjectDigest {header : Value} (h : isObjectDigest header = true)
    (embedded : Option String) (supplied : Option Bytes) :
    signingPayload header embedded supplied = "" :=
  if_pos h

theorem decodePayload_bytesToBase64Url {header : Value} (h : isUnencoded header = false)
    (bytes : Bytes) :
    decodePayload header (bytesToBase64Url bytes) = .ok bytes := by
  rw [decodePayload, h, bytesToBase64Url, String.toList_ofList, Base64url.decode_encode]
  rfl

/-! ## Encoded headers -/

theorem dot_not_mem_of_isBase64Url {s : String} (h : isBase64Url s.toList = true) :
    '.' ∉ s.toList := by
  intro hmem
  have hdot := List.all_eq_true.mp (Bool.and_eq_true_iff.mp h).2 '.' hmem
  exact absurd hdot (by decide)

def encodeJson (value : Value) : String :=
  base64urlEncode (String.ofList ((Json.stringify value).getD []))

theorem isBase64Url_bytesToBase64Url {bytes : Bytes} (h : bytes ≠ []) :
    isBase64Url (bytesToBase64Url bytes).toList = true := by
  rw [bytesToBase64Url, String.toList_ofList, isBase64Url, Bool.and_eq_true_iff]
  constructor
  · cases hencoded : Base64url.encode bytes with
    | nil =>
      have hdecoded := Base64url.decodeChars_encode bytes
      rw [hencoded] at hdecoded
      exact absurd hdecoded.symm h
    | cons c cs => rfl
  · have hchars : Base64url.chars.all (fun c => c.isAlphanum || c = '_' || c = '-') =
      true := by decide
    exact List.all_eq_true.mpr fun c hc => List.all_eq_true.mp hchars c
      (Base64url.mem_chars_of_encode bytes c hc)

theorem stringToBytes_ne_nil {s : String} (h : s ≠ "") : stringToBytes s ≠ [] := by
  intro hnil
  have hs := bytesToText_stringToBytes s
  rw [hnil] at hs
  exact h hs.symm

theorem isBase64Url_encodeJson {value j : Value} (hvalue : value.Distinct)
    (hj : Json.normal value = some j) :
    isBase64Url (encodeJson value).toList = true := by
  refine isBase64Url_bytesToBase64Url (stringToBytes_ne_nil fun hempty => ?_)
  have hparse := Json.parse_stringify_normal hvalue hj
  cases htext : Json.stringify value with
  | none =>
    rw [htext] at hparse
    cases hparse
  | some text =>
    rw [htext, Option.getD_some] at hempty
    obtain rfl : text = [] := by simpa using congrArg String.toList hempty
    rw [htext, Option.bind_some] at hparse
    cases hparse

/-- An encoded value is decoded to what it is read back as. -/
theorem base64urlDecodeJson_encodeJson {value j : Value} (hvalue : value.Distinct)
    (hj : Json.normal value = some j) :
    base64urlDecodeJson (encodeJson value) = .ok j := by
  have hjson := Json.isJson_normal hvalue hj
  have htext : Json.stringify value = Json.stringify j := by
    rw [Json.stringify_normal value, hj, Option.bind_some]
  obtain ⟨text, hj', -⟩ := Json.exists_reads hjson
  rw [encodeJson, htext, hj', Option.getD_some]
  exact base64urlDecodeJson_encode hjson hj'

theorem parseProtected_encodeJson {platform : Platform} {value j header : Value}
    (hvalue : value.Distinct) (hj : Json.normal value = some j)
    (hheader : zProtectedHeader platform j = some header) :
    parseProtected platform (some (encodeJson value)) = .ok header := by
  have hne : encodeJson value ≠ "" := by
    intro hempty
    have hencoded := isBase64Url_encodeJson hvalue hj
    rw [hempty] at hencoded
    cases hencoded
  rw [parseProtected, if_neg hne, base64urlDecodeJson_encodeJson hvalue hj]
  simp only [hheader]

/-- The signature of a part whose header is accepted and whose payload is there is parsed. -/
theorem parseSignature_of {platform : Platform} (options : VerifyOptions) (part : SignaturePart)
    {encoded : String} {header : Value} {bytes : Bytes} {unprotected : Option Value}
    (hencoded : part.encodedHeader = some encoded)
    (hheader : parseProtected platform (some encoded) = .ok header)
    (hcrit : ∀ parameter ∈ textsOf (header.get "crit"),
      parameter ∈ criticalParameters ++ options.understoodCriticalParameters)
    (hpayload : part.payload = none → options.detachedPayload = none → isObjectDigest header = true)
    (hbytes : rawPayloadBytes header part.payload
      (options.detachedPayload.map DetachedPayload.toBytes) = .ok bytes)
    (hunprotected : parseUnprotected platform part.unprotected = .ok unprotected) :
    parseSignature platform options part = .ok {
      header, payload := parsePayload (bytesToText bytes), rawPayload := bytesToText bytes,
      rawPayloadBytes := bytes
      unprotectedHeader := unprotected, valid := true
      signingInput := encoded ++ "." ++
        signingPayload header part.payload (options.detachedPayload.map DetachedPayload.toBytes)
      signature := part.signature } := by
  have hfind : (textsOf (header.get "crit")).find?
      (· ∉ criticalParameters ++ options.understoodCriticalParameters) = none := by
    rw [List.find?_eq_none]
    intro parameter hparameter hnot
    exact of_decide_eq_true hnot (hcrit parameter hparameter)
  rw [parseSignature, hencoded, hheader, ok_bind]
  dsimp only
  rw [hfind]
  dsimp only
  rw [if_neg, hbytes, ok_bind, hunprotected, ok_bind, Option.getD_some]
  · rfl
  · rintro ⟨hnone, hsupplied, hdigest⟩
    rw [hpayload hnone (Option.map_eq_none_iff.mp hsupplied)] at hdigest
    cases hdigest

/-! ## Compact texts -/

theorem stringToBytes_cons (cs : List Char) :
    ∃ bytes, stringToBytes (String.ofList ('\x7b' :: cs)) = 123 :: bytes := by
  have happend : String.ofList ('\x7b' :: cs) = "\x7b" ++ String.ofList cs := by
    apply String.toList_injective
    rw [String.toList_append, String.toList_ofList, String.toList_ofList]
    simp
  refine ⟨stringToBytes (String.ofList cs), ?_⟩
  rw [stringToBytes, happend, String.toUTF8_eq_toByteArray, String.toByteArray_append,
    ByteArray.data_append, Array.toList_append]
  rfl

theorem first_of_chars : ∀ a ∈ Base64url.chars, ∀ b ∈ Base64url.chars,
    UInt8.ofNat (Base64url.indexOf a <<< 2 ||| Base64url.indexOf b >>> 4) = 123 → a = 'e' := by
  have hall : (Base64url.chars.all fun a => Base64url.chars.all fun b =>
      decide (UInt8.ofNat (Base64url.indexOf a <<< 2 ||| Base64url.indexOf b >>> 4) =
        123 → a = 'e')) = true := by
    decide +kernel
  intro a ha b hb
  exact of_decide_eq_true (List.all_eq_true.mp (List.all_eq_true.mp hall a ha) b hb)

/-- The text of bytes that start with an opening brace starts with the letter `e`. -/
theorem encode_cons (bytes : Bytes) : ∃ cs, Base64url.encode (123 :: bytes) = 'e' :: cs := by
  have hdecoded := Base64url.decodeChars_encode (123 :: bytes)
  have hchars := Base64url.mem_chars_of_encode (123 :: bytes)
  cases hencoded : Base64url.encode (123 :: bytes) with
  | nil =>
    rw [hencoded] at hdecoded
    cases hdecoded
  | cons a cs =>
    cases cs with
    | nil =>
      rw [hencoded] at hdecoded
      cases hdecoded
    | cons b cs =>
      rw [hencoded] at hdecoded hchars
      have hfirst : UInt8.ofNat
          (Base64url.indexOf a <<< 2 ||| Base64url.indexOf b >>> 4) = 123 := by
        rcases cs with _ | ⟨c, _ | ⟨d, cs⟩⟩
        all_goals exact (List.cons.inj hdecoded).1
      exact ⟨b :: cs, by rw [first_of_chars a (hchars a (by simp)) b (hchars b (by simp)) hfirst]⟩

/-- An encoded header is not the start of a JSON text. -/
theorem parse_encodeJson (members : List (String × Value)) (cs : List Char) :
    Json.parse ((encodeJson (obj members)).toList ++ cs) = none := by
  obtain ⟨bytes, hbytes⟩ := stringToBytes_cons (Json.commas (Json.memberTexts members) ++ ['\x7d'])
  obtain ⟨rest, hrest⟩ := encode_cons bytes
  have hencoded : (encodeJson (obj members)).toList = 'e' :: rest := by
    rw [encodeJson, Json.stringify, Option.getD_some, base64urlEncode, hbytes, hrest,
      String.toList_ofList]
  rw [hencoded, List.cons_append, Json.parse, Json.parseValue, Json.skipSpace_cons (by decide)]
  rfl

/-! ## Texts of JSON texts -/

theorem length_parseString {fuel : ℕ} {cs s rest : List Char}
    (h : Json.parseString fuel cs = some (s, rest)) :
    s.length ≤ fuel := by
  induction fuel generalizing cs s rest with
  | zero => cases h
  | succ fuel ih =>
    cases cs with
    | nil => cases h
    | cons c cs =>
      rw [Json.parseString] at h
      split_ifs at h
      · cases h
        exact Nat.zero_le _
      · obtain ⟨⟨c', rest'⟩, -, h⟩ := Option.bind_eq_some_iff.mp h
        obtain ⟨⟨s', rest''⟩, hs, h⟩ := Option.bind_eq_some_iff.mp h
        cases h
        exact Nat.succ_le_succ (ih hs)
      · obtain ⟨⟨s', rest''⟩, hs, h⟩ := Option.bind_eq_some_iff.mp h
        cases h
        exact Nat.succ_le_succ (ih hs)

/-- A text in a JSON text is shorter. -/
theorem length_lt_of_parse {text : List Char} {s : String} (h : Json.parse text = some (str s)) :
    s.toList.length < text.length := by
  rw [Json.parse] at h
  split at h
  case h_2 => cases h
  case h_1 value rest hread =>
    split_ifs at h
    cases h
    rw [Json.parseValue] at hread
    split at hread
    case h_1 rest' hquote =>
      obtain ⟨⟨cs, rest''⟩, hs, heq⟩ := Option.map_eq_some_iff.mp hread
      cases heq
      have hle : (Json.skipSpace text).length ≤ text.length := (List.dropWhile_suffix _).length_le
      rw [hquote, List.length_cons] at hle
      rw [String.toList_ofList]
      exact Nat.lt_of_lt_of_le (Nat.lt_succ_of_le (length_parseString hs)) hle
    case h_2 =>
      split at hread
      · cases hread
      · obtain ⟨_, -, heq⟩ := Option.map_eq_some_iff.mp hread
        cases heq
    case h_3 =>
      split at hread
      · cases hread
      · obtain ⟨_, -, heq⟩ := Option.map_eq_some_iff.mp hread
        cases heq
    all_goals
      obtain ⟨_, -, heq⟩ := Option.map_eq_some_iff.mp hread
      cases heq

def textLength : Value → ℕ
  | str s => s.toList.length + 1
  | _ => 0

/-- A text is read as JSON, and as a compact JWS where this fails for another reason than that the
JWS is not valid. -/
def verify (platform : Platform) (verifier : SignatureVerifier)
    (options : VerifyOptions) (jws : Value) (calls : List Call) :
    Except Error VerifyResult × List Call :=
  match jws with
  | str s => match _hparse : Json.parse s.toList with
    | none => verifyCompact platform verifier options s calls
    | some parsed => match verify platform verifier options parsed calls with
      | (.error .other, calls) => verifyCompact platform verifier options s calls
      | result => result
  | jws => verifyValue platform verifier options jws calls
termination_by textLength jws
decreasing_by
  cases parsed with
  | leaf l =>
    cases l
    all_goals try exact Nat.succ_pos _
    exact Nat.succ_lt_succ (length_lt_of_parse _hparse)
  | arr items => exact Nat.succ_pos _
  | obj members => exact Nat.succ_pos _

section

variable {platform : Platform} {verifier : SignatureVerifier} {options : VerifyOptions}
    {members : List (String × Value)}
  {calls : List Call}

theorem verify_obj : verify platform verifier options (obj members) calls =
    if hasMember "signatures" (obj members) then
      verifyGeneral platform verifier options (obj members) (options.signatureIndex.getD 0) calls
    else verifyFlattened platform verifier options (obj members) calls := by
  rw [verify]
  · rfl
  · exact nofun

theorem verify_str {s : String} (h : Json.parse s.toList = none) :
    verify platform verifier options (str s) calls =
      verifyCompact platform verifier options s calls := by
  rw [verify]
  split
  · rfl
  · next hparse =>
    rw [h] at hparse
    cases hparse

theorem hasMember_signatures : hasMember "signatures" (obj members) = true ↔
    "signatures" ∈ keys members := by
  have hinherited : isUndefined (inherited "signatures") = true := rfl
  rw [hasMember, hinherited, Bool.not_true, Bool.or_false, decide_eq_true_eq]
  rfl

theorem verifyPart_of {part : SignaturePart} {parsed : ParsedSignature}
    (hparsed : parseSignature platform options part = .ok parsed)
    (haccepted : verifier (⟨parsed.signingInput, parsed.signature⟩ :: calls) = .ok true) :
    verifyPart platform verifier options (.ok part) calls =
      (.ok parsed.toVerifyResult, ⟨parsed.signingInput, parsed.signature⟩ :: calls) := by
  unfold verifyPart
  rw [Except.bind, hparsed]
  dsimp only
  rw [verifyParsed, haccepted]

end

end IdentityCommon.Jades
