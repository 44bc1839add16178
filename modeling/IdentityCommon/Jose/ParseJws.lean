import IdentityCommon.Jose.SignJws

/-!
# Parsing a JWS

The parts of a compact serialization, and the payload that it carries or that is carried beside it.

## Main definitions

- `compactJwsParts` — the parts of a compact serialization; an empty payload part is a detached
  payload
- `parseJws` — the header, the payload and the signature of a JWS
- `ParsesBack` — what is parsed is what was signed

## Main results

- `parsesBack` — a JWS that is signed is one that is parsed back, except that an empty payload has
  to be passed as one that is detached
- `not_parsed_of_empty`, `not_parsed_of_not_written` — an empty payload that is not passed, and a
  critical parameter that is not written in JSON text
-/

namespace IdentityCommon.Jose

open Ecma AssocList Value Json Common IdentityCommon.Except

/-! ## Parts -/

def decodeBase64UrlJsonObject (encoded name : String) : Except JoseError Value :=
  match base64urlDecodeJson encoded with
  | .ok (obj members) => .ok (obj members)
  | .ok _ => .error (.parse ("Unable to decode the " ++ name ++ ", it is not a JSON object"))
  | .error _ => .error
      (.parse ("Unable to decode the " ++ name ++ ", it is not valid base64url encoded JSON"))

def decodeBase64UrlBytes (encoded name : String) : Except JoseError (List UInt8) :=
  match Base64url.decode encoded.toList with
  | .ok bytes => .ok bytes
  | .error _ => .error (.parse ("Unable to decode the " ++ name ++ ", it is not valid base64url"))

/-- The parts of a JWS. The payload is `none` where it is detached. -/
structure JwsParts where
  encodedProtectedHeader : String
  serializedPayload : Option String
  signature : String
  compact : Option String

/-- A header that sets `b64` to false: a `.` in the payload splits the JWS into more parts. -/
def isUnencodedPayloadHeader (encodedProtectedHeader : String) : Bool :=
  match decodeBase64UrlJsonObject encodedProtectedHeader "JWS protected header" with
  | .ok header => match header.get "b64" with
    | .leaf (.bool false) => true
    | _ => false
  | .error _ => false

def compactJwsParts (jws : String) : Except JoseError JwsParts :=
  let parts := split jws '.'
  if 3 < parts.length ∧ isUnencodedPayloadHeader (parts.headD "") then
    .error (.parse ("Unable to parse the JWS. " ++
      (unencodedCompactPayloadIssue (join parts.tail.dropLast '.')).getD "undefined"))
  else match parts with
    | [encodedProtectedHeader, payload, signature] =>
      if !isBase64Url encodedProtectedHeader then
        .error (.parse
          "Unable to parse the JWS, the protected header of a compact JWS must be base64url")
      else if !isBase64Url signature then
        .error (.parse "Unable to parse the JWS, the signature of a compact JWS must be base64url")
      else if signature = "" then
        .error (.parse
          ("Unable to parse the JWS, it does not have a signature. An unsecured JWS is not " ++
           "supported."))
      else .ok {
        encodedProtectedHeader, signature
        serializedPayload := if payload = "" then none else some payload
        compact := if payload = "" then none else some jws }
    | _ => .error
        (.parse "Unable to parse the JWS, a compact JWS must consist of exactly three parts")

/-! ## Payloads -/

inductive DetachedPayload
  | text (s : String)
  | bytes (octets : List UInt8)

def DetachedPayload.toBytes : DetachedPayload → List UInt8
  | .text s => stringToBytes s
  | .bytes octets => octets

/-- The bytes of the payload, and the payload in the signing input. -/
def resolvePayload (serializedPayload : Option String) (detachedPayload : Option DetachedPayload)
    (isBase64UrlEncoded : Bool) : Except JoseError (List UInt8 × String) :=
  match serializedPayload, detachedPayload with
  | some _, some _ =>
    .error (.parse
      ("A detached payload was provided, but the JWS carries a payload. Only one of the two can " ++
       "be the payload that was signed."))
  | none, none =>
    .error (.parse
      ("The JWS does not carry a payload and no detached payload was provided, so there is " ++
       "nothing to verify. Pass the payload as `detachedPayload`."))
  | none, some detached => do
    let encodedPayload ← encodePayload isBase64UrlEncoded detached.toBytes
    return (detached.toBytes, encodedPayload)
  | some serialized, none => do
    let payload ← if isBase64UrlEncoded then decodeBase64UrlBytes serialized "JWS payload"
      else .ok (stringToBytes serialized)
    return (payload, serialized)

/-! ## Parsing -/

structure ParseJwsOptions where
  jws : String
  detachedPayload : Option DetachedPayload := none
  understoodCriticalParameters : List String := []

structure ParsedJws where
  protectedHeader : Value
  encodedProtectedHeader : String
  payload : List UInt8
  encodedPayload : String
  signature : String
  signingInput : String
  compact : Option String

def assertSerializedPayload (isBase64UrlEncoded : Bool) (serializedPayload : Option String) :
    Except JoseError Unit :=
  match if isBase64UrlEncoded then none
    else serializedPayload.bind unencodedCompactPayloadIssue with
  | some issue => .error (.parse ("Unable to parse the JWS. " ++ issue))
  | none => .ok ()

def assertProtectedHeader (encodedProtectedHeader : String) : Except JoseError Unit :=
  if encodedProtectedHeader = "" then
    .error (.parse
      ("Unable to parse the JWS, it does not have a protected header. A JWS without a protected " ++
       "header does not integrity protect its own algorithm, and is not supported."))
  else .ok ()

def parseJws (options : ParseJwsOptions) : Except JoseError ParsedJws := do
  let parts ← compactJwsParts options.jws
  assertProtectedHeader parts.encodedProtectedHeader
  let protectedHeaderJson ← decodeBase64UrlJsonObject parts.encodedProtectedHeader
    "JWS protected header"
  let protectedHeader ← parseHeader zJwsProtectedHeader "Invalid JWS protected header"
    protectedHeaderJson
  assertCriticalHeaderParameters protectedHeader none options.understoodCriticalParameters
  let isBase64UrlEncoded ← isPayloadBase64UrlEncoded protectedHeader
  assertSerializedPayload isBase64UrlEncoded parts.serializedPayload
  let (payload, encodedPayload) ← resolvePayload parts.serializedPayload options.detachedPayload
    isBase64UrlEncoded
  return {
    protectedHeader, encodedProtectedHeader := parts.encodedProtectedHeader, payload, encodedPayload
    signature := parts.signature, signingInput := join [parts.encodedProtectedHeader,
      encodedPayload] '.'
    compact := parts.compact }

/-! ## Headers that are read back -/

theorem crit_normal {v w j : Value} (h : zJwsProtectedHeader v = some w) (hw : w.Distinct)
    (hj : normal w = some j) :
    critOf j = critOf w := by
  rw [critOf, critOf, get_normal (by decide)
    (by simp [headerShape]) exact_zNonEmptyString.nonEmptyArray rfl h hw hj]

theorem b64_normal {v w j : Value} (h : zJwsProtectedHeader v = some w) (hw : w.Distinct)
    (hj : normal w = some j) :
    isPayloadBase64UrlEncoded j = isPayloadBase64UrlEncoded w := by
  rw [isPayloadBase64UrlEncoded, isPayloadBase64UrlEncoded, crit_normal h hw hj,
    get_normal (by decide) (by simp [headerShape]) exact_zBoolean rfl h hw hj]

/-- The parameters that `crit` lists have a value that is written in JSON text. -/
def CriticalWritten (protectedHeader : Value) : Prop :=
  ∀ name ∈ critOf protectedHeader, ∀ value, protectedHeader.child (.name name) = some value →
  normal value ≠ none

/-- What is read back of a header is in order if the header is and its critical parameters are
written. -/
theorem assertCritical_normal {v w j : Value} {understood : List String}
    (h : zJwsProtectedHeader v = some w) (hw : w.Distinct) (hj : normal w = some j)
    (hcrit : assertCriticalHeaderParameters w none understood = .ok ())
    (hwritten : CriticalWritten w) : assertCriticalHeaderParameters j none understood = .ok () := by
  rw [assertCriticalHeaderParameters_eq_ok] at hcrit ⊢
  rw [crit_normal h hw hj]
  intro name hname
  obtain ⟨hregistered, hown, hunderstood⟩ := hcrit name hname
  refine ⟨hregistered, ?_, hunderstood⟩
  obtain ⟨value, hvalue⟩ := Option.isSome_iff_exists.mp hown
  obtain ⟨members, known, rfl, _, rfl⟩ := looseObject_eq_some h
  cases hj
  cases hw with
  | obj hn _ =>
    rw [child_name_obj] at hvalue
    rw [hasOwn, child_name_obj, lookup_normalMembers hn, hvalue, Option.bind_some]
    exact Option.isSome_iff_ne_none.mpr (hwritten name hname value hvalue)

theorem decode_encodeBase64UrlJson {members : List (String × Value)} {j : Value}
    (hw : (obj members).Distinct) (hj : normal (obj members) = some j) (name : String) :
    decodeBase64UrlJsonObject (encodeBase64UrlJson (obj members)) name = .ok j := by
  have hparse := parse_stringify_normal hw hj
  cases hj
  obtain ⟨text, htext, hparse⟩ := Option.bind_eq_some_iff.mp hparse
  rw [decodeBase64UrlJsonObject, encodeBase64UrlJson, htext, Option.getD_some, base64urlDecodeJson,
    base64urlDecode_encode]
  dsimp only
  rw [String.toList_ofList, hparse]

/-! ## Round trips -/

theorem encode_ne_nil {bytes : List UInt8} (h : bytes ≠ []) : Base64url.encode bytes ≠ [] := by
  intro heq
  exact h (Base64url.encode_injective (heq.trans (by rfl : [] = Base64url.encode [])))

theorem stringToBytes_empty : stringToBytes "" = [] := rfl

theorem encodeBase64UrlJson_ne_empty (members : List (String × Value)) :
    encodeBase64UrlJson (obj members) ≠ "" := by
  intro h
  rw [encodeBase64UrlJson] at h
  have htext := base64urlEncode_injective (h.trans (by rfl : "" = base64urlEncode ""))
  have hnil := congrArg String.toList htext
  rw [String.toList_ofList] at hnil
  cases hnil

/-- An encoded payload is empty where the payload is. -/
theorem encodePayload_eq_empty {isBase64UrlEncoded : Bool} {payload : List UInt8}
    {encodedPayload : String} (h : encodePayload isBase64UrlEncoded payload = .ok encodedPayload) :
    encodedPayload = "" ↔ payload = [] := by
  have hbytes := encodePayload_eq_ok h
  cases isBase64UrlEncoded with
  | true =>
    simp only [if_true] at hbytes
    subst hbytes
    constructor
    · intro heq
      by_contra hne
      exact encode_ne_nil hne (by simpa using congrArg String.toList heq)
    · rintro rfl
      rfl
  | false =>
    simp only [Bool.false_eq_true, if_false] at hbytes
    subst hbytes
    constructor
    · rintro rfl
      rfl
    · intro hnil
      have hempty := bytesToString_stringToBytes encodedPayload
      rw [hnil, ← stringToBytes_empty, bytesToString_stringToBytes] at hempty
      exact (Except.ok.inj hempty).symm

theorem not_mem_of_unencodedIssue {payload : String}
    (h : unencodedCompactPayloadIssue payload = none) :
    '.' ∉ payload.toList := by
  rw [unencodedCompactPayloadIssue] at h
  split_ifs at h with hdot
  exact hdot

/-- The payload that is carried has no separator, and nothing else that is not allowed. -/
theorem serialized_of_assertCompactPayload {isBase64UrlEncoded : Bool} {payload : List UInt8}
    {encodedPayload : String} (h : encodePayload isBase64UrlEncoded payload = .ok encodedPayload)
    (hcompact : assertCompactPayload isBase64UrlEncoded false encodedPayload = .ok ()) :
    '.' ∉ encodedPayload.toList ∧
    assertSerializedPayload isBase64UrlEncoded (some encodedPayload) = .ok () := by
  cases isBase64UrlEncoded with
  | true =>
    have hbytes := encodePayload_eq_ok h
    simp only [if_true] at hbytes
    subst hbytes
    exact ⟨not_mem_of_isBase64Url (isBase64Url_encode payload), rfl⟩
  | false =>
    rw [assertCompactPayload] at hcompact
    cases hissue : unencodedCompactPayloadIssue encodedPayload with
    | some issue =>
      simp only [hissue, Bool.not_false, Bool.and_self, if_true] at hcompact
      cases hcompact
    | none =>
      refine ⟨not_mem_of_unencodedIssue hissue, ?_⟩
      simp only [assertSerializedPayload, Bool.false_eq_true, if_false, Option.bind_some, hissue]

/-- A payload that is carried is the one that was encoded. -/
theorem resolvePayload_serialized {isBase64UrlEncoded : Bool} {payload : List UInt8}
    {encodedPayload : String} (h : encodePayload isBase64UrlEncoded payload = .ok encodedPayload) :
    resolvePayload (some encodedPayload) none isBase64UrlEncoded =
      .ok (payload, encodedPayload) := by
  have hbytes := encodePayload_eq_ok h
  cases isBase64UrlEncoded with
  | true =>
    simp only [if_true] at hbytes
    subst hbytes
    rw [resolvePayload, if_pos rfl, decodeBase64UrlBytes, String.toList_ofList,
      Base64url.decode_encode]
    rfl
  | false =>
    simp only [Bool.false_eq_true, if_false] at hbytes
    subst hbytes
    rfl

theorem resolvePayload_detached {isBase64UrlEncoded : Bool} {payload : List UInt8}
    {encodedPayload : String} (h : encodePayload isBase64UrlEncoded payload = .ok encodedPayload)
    {detached : DetachedPayload} (hdetached : detached.toBytes = payload) :
    resolvePayload none (some detached) isBase64UrlEncoded = .ok (payload, encodedPayload) := by
  rw [resolvePayload, hdetached, h]
  rfl

/-- A header with a separator on both sides of the payload part. -/
theorem compactJwsParts_join {encodedProtectedHeader part signature : String}
    (hheader : isBase64Url encodedProtectedHeader = true) (hpart : '.' ∉ part.toList)
    (hsignature : isBase64Url signature = true ∧ signature ≠ "") :
    ∃ compact, compactJwsParts (join [encodedProtectedHeader, part, signature] '.') =
      .ok ⟨encodedProtectedHeader, if part = "" then none else some part, signature, compact⟩ := by
  have hsplit : split (join [encodedProtectedHeader, part, signature] '.') '.' =
      [encodedProtectedHeader, part, signature] := by
    refine split_join (List.cons_ne_nil _ _) fun s hs => ?_
    rcases List.mem_cons.mp hs with rfl | hs
    · exact not_mem_of_isBase64Url hheader
    rcases List.mem_cons.mp hs with rfl | hs
    · exact hpart
    · rw [List.mem_singleton.mp hs]
      exact not_mem_of_isBase64Url hsignature.1
  refine ⟨if part = "" then none else some (join [encodedProtectedHeader, part, signature] '.'), ?_⟩
  rw [compactJwsParts, hsplit]
  rw [if_neg (by simp)]
  simp only [hheader, hsignature.1, hsignature.2, Bool.not_true, Bool.false_eq_true, if_false]

/-- The payload part of a serialization, and the payload that is passed beside it. -/
inductive Carries (encodedPayload : String) (payload : List UInt8) :
    String → Option DetachedPayload → Prop
  | serialized : encodedPayload ≠ "" → Carries encodedPayload payload encodedPayload none
  | detached (detached : DetachedPayload) : detached.toBytes = payload →
      Carries encodedPayload payload "" (some detached)

theorem Carries.resolvePayload {isBase64UrlEncoded : Bool} {payload : List UInt8}
    {encodedPayload part : String} {passed : Option DetachedPayload}
    (h : Carries encodedPayload payload part passed)
    (hencoded : encodePayload isBase64UrlEncoded payload = .ok encodedPayload) :
    resolvePayload (if part = "" then none else some part) passed isBase64UrlEncoded =
      .ok (payload, encodedPayload) := by
  cases h with
  | serialized hne =>
    rw [if_neg hne]
    exact resolvePayload_serialized hencoded
  | detached detached hdetached =>
    rw [if_pos rfl]
    exact resolvePayload_detached hencoded hdetached

/-- The header of a JWS that is signed, up to the payload. -/
structure HeaderReads (protectedHeader : Value) (isBase64UrlEncoded : Bool) (j : Value) : Prop where
  decodes : decodeBase64UrlJsonObject
    (encodeBase64UrlJson protectedHeader) "JWS protected header" = .ok j
  parses : zJwsProtectedHeader j = some j
  b64 : isPayloadBase64UrlEncoded j = .ok isBase64UrlEncoded
  text : stringify j = stringify protectedHeader

theorem IsSigned.headerReads {options : SignCompactJwsOptions}
    {encodedProtectedHeader encodedPayload : String} {input : SigningInput}
    {isBase64UrlEncoded : Bool}
    (h : IsSigned options encodedProtectedHeader encodedPayload input isBase64UrlEncoded) :
    ∃ members j, input.protectedHeader = obj members ∧ (obj members).Distinct ∧
    normal (obj members) = some j ∧
      HeaderReads (obj members) isBase64UrlEncoded j := by
  have hheader := h.header
  have hb64 := h.b64
  obtain ⟨members, known, hinput, hknown, hw⟩ := looseObject_eq_some hheader
  have hdistinct := stable_zJwsProtectedHeader.distinct _ _ options.distinct hheader
  rw [hw] at hheader hdistinct hb64
  refine ⟨_, _, hw, hdistinct, rfl, decode_encodeBase64UrlJson hdistinct rfl _,
    stable_zJwsProtectedHeader.normal _ _ _ options.distinct hheader rfl, ?_, ?_⟩
  · rw [b64_normal hheader hdistinct rfl, hb64]
  · rw [stringify_normal (obj (known ++ _))]
    rfl

/-- What is parsed is what was signed. -/
def ParsesBack (signJwsCallback : JwsSigner → SigningInput → Except JoseError Signature)
    (options : SignCompactJwsOptions) (result : SignCompactJwsResult) (input : SigningInput)
    (passed : Option DetachedPayload) : Prop :=
  ∃ parsed signature, parseJws { jws := result.compact, detachedPayload := passed
                                 understoodCriticalParameters := critOf input.protectedHeader } =
                                   .ok parsed ∧
    signJwsCallback options.signer input = .ok signature ∧ parsed.signature = signature.signature ∧
    parsed.signingInput = input.signingInput ∧ parsed.payload = input.payload ∧
    stringify parsed.protectedHeader = stringify input.protectedHeader

/-- The payload is passed beside the JWS exactly where it is detached or empty. -/
def Passes (options : SignCompactJwsOptions) (passed : Option DetachedPayload) : Prop :=
  if options.detachPayload ∨ options.payload.toBytes = [] then
    ∃ detached, passed = some detached ∧ detached.toBytes = options.payload.toBytes
  else passed = none

theorem IsSigned.carries {options : SignCompactJwsOptions}
    {encodedProtectedHeader encodedPayload : String} {input : SigningInput}
    {isBase64UrlEncoded : Bool} {passed : Option DetachedPayload}
    (h : IsSigned options encodedProtectedHeader encodedPayload input isBase64UrlEncoded)
    (hpassed : Passes options passed) :
    Carries encodedPayload options.payload.toBytes (if options.detachPayload then ""
      else encodedPayload) passed := by
  have hempty := encodePayload_eq_empty h.encodesPayload
  unfold Passes at hpassed
  split_ifs at hpassed with hbeside
  · obtain ⟨detached, rfl, hdetached⟩ := hpassed
    have hpart : (if options.detachPayload then "" else encodedPayload) = "" := by
      split_ifs with hdetach
      · rfl
      · exact hempty.mpr (hbeside.resolve_left hdetach)
    rw [hpart]
    exact .detached detached hdetached
  · obtain ⟨hdetach, hne⟩ := not_or.mp hbeside
    subst hpassed
    rw [if_neg hdetach]
    exact .serialized fun heq => hne (hempty.mp heq)

/-- The payload part has no separator, and nothing that is not allowed in it. -/
theorem IsSigned.part {options : SignCompactJwsOptions}
    {encodedProtectedHeader encodedPayload : String} {input : SigningInput}
    {isBase64UrlEncoded : Bool}
    (h : IsSigned options encodedProtectedHeader encodedPayload input isBase64UrlEncoded) :
    '.' ∉ (if options.detachPayload then "" else encodedPayload).toList ∧
      assertSerializedPayload isBase64UrlEncoded
        (if (if options.detachPayload then "" else encodedPayload) = "" then none
        else some (if options.detachPayload then "" else encodedPayload)) = .ok () := by
  have hnone : assertSerializedPayload isBase64UrlEncoded none = .ok () := by
    cases isBase64UrlEncoded <;> rfl
  have hcompact := h.compactPayload
  split_ifs with hdetach hempty hempty
  · exact ⟨by decide, hnone⟩
  · exact absurd rfl hempty
  · rw [hempty]
    exact ⟨by decide, hnone⟩
  · rw [Bool.not_eq_true] at hdetach
    rw [hdetach] at hcompact
    exact serialized_of_assertCompactPayload h.encodesPayload hcompact

/-- **A JWS that is signed is one that is parsed back**, with the payload passed beside it exactly
where it is detached or empty, and if the critical parameters of its header are written in JSON
text. -/
theorem parsesBack {signJwsCallback : JwsSigner → SigningInput → Except JoseError Signature}
    {options : SignCompactJwsOptions} {result : SignCompactJwsResult}
    (h : signCompactJws signJwsCallback options = .ok result)
    {encodedProtectedHeader encodedPayload : String} {input : SigningInput}
    (hinput : signingInputOf options = .ok (encodedProtectedHeader, encodedPayload, input))
    (hwritten : CriticalWritten input.protectedHeader) {passed : Option DetachedPayload}
    (hpassed : Passes options passed) :
    ParsesBack signJwsCallback options result input passed := by
  obtain ⟨_, _, input', signature, hinput', hcallback, hsignature, rfl⟩ := signCompactJws_eq_ok h
  cases hinput.symm.trans hinput'
  obtain ⟨isBase64UrlEncoded, hs⟩ := isSigned_of_signingInputOf hinput
  obtain ⟨members, j, hobj, hdistinct, hj, hreads⟩ := hs.headerReads
  have hencodes := hs.encodesHeader
  have hheader := hs.header
  have hcrit := hs.crit
  rw [hobj] at hencodes hheader hcrit hwritten
  subst hencodes
  have hcarries := hs.carries hpassed
  have hserialized := hs.part
  obtain ⟨compact, hparts⟩ := compactJwsParts_join (isBase64Url_encode _) hserialized.1 hsignature
  let parsed : ParsedJws := {
    protectedHeader := j, encodedProtectedHeader := encodeBase64UrlJson (obj members)
    payload := options.payload.toBytes, encodedPayload, signature := signature.signature
    signingInput := join [encodeBase64UrlJson (obj members), encodedPayload] '.', compact }
  refine ⟨parsed, signature, ?_, hcallback, rfl, hs.signingInput.symm,
    hs.payload.symm, by rw [hobj]; exact hreads.text⟩
  have hcritical := assertCritical_normal hheader hdistinct hj hcrit hwritten
  refine bind_eq_ok.mpr ⟨_, hparts, ?_⟩
  rw [hobj]
  refine bind_eq_ok.mpr ⟨(), if_neg (encodeBase64UrlJson_ne_empty members), ?_⟩
  refine bind_eq_ok.mpr ⟨j, hreads.decodes, ?_⟩
  refine bind_eq_ok.mpr ⟨j, by rw [parseHeader, hreads.parses], ?_⟩
  refine bind_eq_ok.mpr ⟨(), hcritical, ?_⟩
  refine bind_eq_ok.mpr ⟨isBase64UrlEncoded, hreads.b64, ?_⟩
  refine bind_eq_ok.mpr ⟨(), hserialized.2, ?_⟩
  exact bind_eq_ok.mpr ⟨_, hcarries.resolvePayload hs.encodesPayload, rfl⟩

/-! ## Runs -/

theorem exists_of_isSome {ε α : Type} {x : Except ε α} (h : x.toOption.isSome = true) :
    ∃ a, x = .ok a := by
  cases x with
  | error e => cases h
  | ok a => exact ⟨a, rfl⟩

def unencodedHeader : Value :=
  obj [("alg", str "ES256"), ("crit", arr [str "b64"]), ("b64", .leaf (.bool false))]

theorem distinct_unencodedHeader : unencodedHeader.Distinct := by
  refine .obj (by decide) fun m hm => ?_
  fin_cases hm
  · exact .leaf _
  · exact .arr fun x hx => by
      rw [List.mem_singleton.mp hx]
      exact .leaf _
  · exact .leaf _

/-- A payload with a separator, which cannot be carried as it is. -/
def detachedOptions : SignCompactJwsOptions where
  protectedHeader := unencodedHeader
  distinct := distinct_unencodedHeader
  payload := .text "$.02"
  signer := .custom "ES256" none
  detachPayload := true

def constantSignature : JwsSigner → SigningInput → Except JoseError Signature :=
  fun _ _ => .ok ⟨"c2ln", obj []⟩

theorem detached_parsesBack : ∃ result input,
    signCompactJws constantSignature detachedOptions = .ok result ∧
      ParsesBack constantSignature detachedOptions result input (some (.text "$.02")) := by
  obtain ⟨result, h⟩ := exists_of_isSome
    (show (signCompactJws constantSignature detachedOptions).toOption.isSome =
      true by decide +kernel)
  obtain ⟨encodedProtectedHeader, encodedPayload, input, _, hinput, _⟩ := signCompactJws_eq_ok h
  refine ⟨result, input, h, parsesBack h hinput ?_ ⟨_, rfl, rfl⟩⟩
  obtain ⟨_, hs⟩ := isSigned_of_signingInputOf hinput
  have hheader : zJwsProtectedHeader unencodedHeader = some unencodedHeader := by rfl
  rw [← Option.some.inj (hheader.symm.trans hs.header)]
  intro name hname value hvalue
  obtain rfl : name = "b64" := List.mem_singleton.mp hname
  cases hvalue
  exact Option.some_ne_none _

/-- What is parsed of a JWS that is signed. -/
theorem parseJws_signed {signJwsCallback : JwsSigner → SigningInput → Except JoseError Signature}
    {options : SignCompactJwsOptions} {result : SignCompactJwsResult}
    (h : signCompactJws signJwsCallback options = .ok result) {passed : Option DetachedPayload}
    {understood : List String} {parsed : ParsedJws}
    (hparse : parseJws
      { jws := result.compact, detachedPayload := passed,
        understoodCriticalParameters := understood } = .ok parsed) :
    ∃ encodedProtectedHeader encodedPayload input isBase64UrlEncoded members j resolved,
      IsSigned options encodedProtectedHeader encodedPayload input isBase64UrlEncoded ∧
      input.protectedHeader = obj members ∧ (obj members).Distinct ∧ normal (obj members) = some j ∧
      assertCriticalHeaderParameters j none understood = .ok () ∧
      resolvePayload (if (if options.detachPayload then "" else encodedPayload) = "" then none
        else some (if options.detachPayload then "" else encodedPayload)) passed
          isBase64UrlEncoded = .ok resolved := by
  obtain ⟨encodedProtectedHeader, encodedPayload, input, signature, hinput, _, hsignature, rfl⟩ :=
    signCompactJws_eq_ok h
  obtain ⟨isBase64UrlEncoded, hs⟩ := isSigned_of_signingInputOf hinput
  obtain ⟨members, j, hobj, hdistinct, hj, hreads⟩ := hs.headerReads
  have hencodes := hs.encodesHeader
  have hurl : isBase64Url encodedProtectedHeader = true := by
    rw [hencodes]
    exact isBase64Url_encode _
  obtain ⟨compact, hparts⟩ := compactJwsParts_join hurl hs.part.1 hsignature
  obtain ⟨parts, hparts', hparse⟩ := bind_eq_ok.mp hparse
  cases (hparts.symm.trans hparts' :)
  obtain ⟨_, _, hparse⟩ := bind_eq_ok.mp hparse
  obtain ⟨_, hdecodes, hparse⟩ := bind_eq_ok.mp hparse
  rw [hencodes, hobj] at hdecodes
  cases (hreads.decodes.symm.trans hdecodes :)
  obtain ⟨_, hheader, hparse⟩ := bind_eq_ok.mp hparse
  rw [parseHeader, hreads.parses] at hheader
  cases hheader
  obtain ⟨_, hcritical, hparse⟩ := bind_eq_ok.mp hparse
  obtain ⟨_, hb64, hparse⟩ := bind_eq_ok.mp hparse
  cases (hreads.b64.symm.trans hb64 :)
  obtain ⟨_, _, hparse⟩ := bind_eq_ok.mp hparse
  obtain ⟨resolved, hresolved, _⟩ := bind_eq_ok.mp hparse
  exact ⟨_, _, _, _, members, j, resolved, hs, hobj, hdistinct, hj, hcritical, hresolved⟩

/-- An empty payload that is not detached looks like one that is, so that it is not parsed without
one. -/
theorem not_parsed_of_empty
    {signJwsCallback : JwsSigner → SigningInput → Except JoseError Signature}
    {options : SignCompactJwsOptions} {result : SignCompactJwsResult}
    (h : signCompactJws signJwsCallback options = .ok result)
    (hempty : options.payload.toBytes = []) (understood : List String) (parsed : ParsedJws) :
    parseJws { jws := result.compact, understoodCriticalParameters := understood } ≠
      .ok parsed := by
  intro hparse
  obtain ⟨_, encodedPayload, _, _, _, _, _, hs, _, _, _, _, hresolved⟩ := parseJws_signed h hparse
  have hpart : (if options.detachPayload then "" else encodedPayload) = "" := by
    split_ifs
    · rfl
    · exact (encodePayload_eq_empty hs.encodesPayload).mpr hempty
  rw [hpart, if_pos rfl] at hresolved
  cases hresolved

/-- A critical parameter that is not written in JSON text is signed, and is then missing. -/
theorem not_parsed_of_not_written
    {signJwsCallback : JwsSigner → SigningInput → Except JoseError Signature}
    {options : SignCompactJwsOptions} {result : SignCompactJwsResult}
    (h : signCompactJws signJwsCallback options = .ok result) {header : Value}
    (hheader : zJwsProtectedHeader options.protectedHeader = some header)
    (hwritten : ¬ CriticalWritten header) (passed : Option DetachedPayload)
    (understood : List String) (parsed : ParsedJws) :
    parseJws
      { jws := result.compact, detachedPayload := passed,
        understoodCriticalParameters := understood } ≠ .ok parsed := by
  intro hparse
  obtain ⟨_, _, _, _, members, _, _, hs, hobj, hdistinct, hj, hcritical, _⟩ :=
    parseJws_signed h hparse
  cases (hs.header.symm.trans hheader :)
  have hinput := hs.header
  rw [hobj] at hwritten hinput
  refine hwritten fun name hname value hvalue hnone => ?_
  rw [assertCriticalHeaderParameters_eq_ok, crit_normal hinput hdistinct hj] at hcritical
  have hown := (hcritical name hname).2.1
  cases hj
  cases hdistinct with
  | obj hn _ =>
    rw [child_name_obj] at hvalue
    rw [hasOwn, child_name_obj, lookup_normalMembers hn, hvalue, Option.bind_some, hnone] at hown
    cases hown

def emptyOptions : SignCompactJwsOptions where
  protectedHeader := obj [("alg", str "ES256")]
  distinct := .obj (by decide) fun m hm => by
    rw [List.mem_singleton.mp hm]
    exact .leaf _
  payload := .text ""
  signer := .custom "ES256" none

/-- A critical parameter that is there without a value. -/
def undefinedOptions : SignCompactJwsOptions where
  protectedHeader := obj [("alg", str "ES256"), ("crit", arr [str "exp"]), ("exp", undefined)]
  distinct := by
    refine .obj (by decide) fun m hm => ?_
    fin_cases hm
    · exact .leaf _
    · exact .arr fun x hx => by
        rw [List.mem_singleton.mp hx]
        exact .leaf _
    · exact .leaf _
  payload := .text "a"
  signer := .custom "ES256" none

theorem not_written_undefinedOptions : ¬ CriticalWritten undefinedOptions.protectedHeader := by
  intro h
  exact h "exp" (by decide) undefined rfl rfl

/-- An empty payload is signed, and is not parsed back without being passed; a critical parameter
without a value is signed, and its header is not parsed back. -/
theorem emptyPayload_notParsedBack :
    (∃ result, signCompactJws constantSignature emptyOptions = .ok result ∧
      emptyOptions.detachPayload = false ∧
      ∀ input, ¬ ParsesBack constantSignature emptyOptions result input none) ∧
    ∃ result, signCompactJws constantSignature undefinedOptions = .ok result ∧
    undefinedOptions.detachPayload = false ∧
      ∀ input, ¬ ParsesBack constantSignature undefinedOptions result input none := by
  constructor
  · obtain ⟨result, h⟩ := exists_of_isSome
      (show (signCompactJws constantSignature emptyOptions).toOption.isSome =
        true by decide +kernel)
    refine ⟨result, h, rfl, fun input hparses => ?_⟩
    obtain ⟨parsed, _, hparsed, _⟩ := hparses
    exact not_parsed_of_empty h rfl _ parsed hparsed
  · obtain ⟨result, h⟩ := exists_of_isSome
      (show (signCompactJws constantSignature undefinedOptions).toOption.isSome =
        true by decide +kernel)
    refine ⟨result, h, rfl, fun input hparses => ?_⟩
    obtain ⟨parsed, _, hparsed, _⟩ := hparses
    exact not_parsed_of_not_written h (by rfl) not_written_undefinedOptions _ _ parsed hparsed

end IdentityCommon.Jose
