import IdentityCommon.Jades.Verifier

/-!
# What a verified signature says

The header and the payload bytes that verification returns, beside those of the signing input that
was accepted.

## Main definitions

- `contentOf` — the header and the payload bytes that a signing input is made of
- `ReturnsSigned` — what is returned is what the signing input says
- `BringsSigned` — the payload that a call brings is the one that is signed

## Main results

- `verify_eq_ok` — a result is that of a part of the JWS whose signing input was accepted
- `returnsSigned_iff` — what is returned is what was signed exactly when the call brings the payload
  that is signed
-/

namespace IdentityCommon.Jades

open Ecma AssocList Value Common IdentityCommon.Except

/-! ## The content of a signing input -/

/-- The texts before and after the first period. -/
def splitSigningInput (signingInput : String) : String × String :=
  (String.ofList (signingInput.toList.takeWhile (· ≠ '.')),
    String.ofList ((signingInput.toList.dropWhile (· ≠ '.')).drop 1))

/-- The header and the payload bytes of a signing input, decoded as its header says. -/
def contentOf (platform : Platform) (signingInput : String) : Except Error (Value × Bytes) := do
  let header ← parseProtected platform (some (splitSigningInput signingInput).1)
  let bytes ← decodePayload header (splitSigningInput signingInput).2
  return (header, bytes)

/-- What is returned is what the signing input says, or payload bytes that the digests in the header
cover. -/
def ReturnsSigned (platform : Platform) (covers : Value → Bytes → Prop) (signingInput : String)
    (result : VerifyResult) : Prop :=
  ∃ bytes, contentOf platform signingInput = .ok (result.header, bytes) ∧
    (result.rawPayloadBytes = bytes ∨
      isObjectDigest result.header = true ∧
        covers (result.header.get "sigD") result.rawPayloadBytes)

theorem splitSigningInput_append {header : String} (h : '.' ∉ header.toList) (payload : String) :
    splitSigningInput (header ++ "." ++ payload) = (header, payload) := by
  have hheader : ∀ c ∈ header.toList, decide (c ≠ '.') = true := by
    intro c hc
    rw [decide_eq_true_eq]
    rintro rfl
    exact h hc
  have htext : (header ++ "." ++ payload).toList = header.toList ++ '.' :: payload.toList := by
    rw [String.toList_append, String.toList_append, List.append_assoc]
    rfl
  rw [splitSigningInput, htext, List.takeWhile_append_of_pos hheader,
    List.dropWhile_append_of_pos hheader]
  simp

/-! ## The part that is verified -/

/-- A signature of a JWS that verification can select. -/
inductive IsPart (options : VerifyOptions) : Value → SignaturePart → Prop
  | compact {s : String} {part : SignaturePart} (h : compactPart s = .ok part) :
      IsPart options (str s) part
  | general {jws : Value} {part : SignaturePart}
      (h : generalPart jws (options.signatureIndex.getD 0) = .ok part) :
    IsPart options jws part
  | flattened {jws : Value} {part : SignaturePart} (h : flattenedPart jws = .ok part) :
      IsPart options jws part
  | parsed {s : String} {jws : Value} {part : SignaturePart}
      (hparse : Json.parse s.toList = some jws)
    (h : IsPart options jws part) : IsPart options (str s) part

/-- A result for a part, over whose signing input the callback was called last and answered that the
signature is valid. -/
structure Verified (platform : Platform) (options : VerifyOptions) (verifier : SignatureVerifier)
    (part : SignaturePart) (result : VerifyResult) (calls : List Call) : Prop where
  parsed : ∃ parsed, parseSignature platform options part = .ok parsed ∧
    result = parsed.toVerifyResult ∧
    ∃ earlier, calls = ⟨parsed.signingInput, parsed.signature⟩ :: earlier
  accepted : verifier calls = .ok true

section

variable {platform : Platform} {verifier : SignatureVerifier} {options : VerifyOptions}
    {result : VerifyResult}
  {calls calls' : List Call} {part : SignaturePart}

theorem verifyPart_eq_ok {part : Except Error SignaturePart}
    (h : verifyPart platform verifier options part calls = (.ok result, calls')) :
    ∃ part', part = .ok part' ∧ Verified platform options verifier part' result calls' := by
  unfold verifyPart at h
  split at h
  · cases h
  · next parsed hparsed =>
    obtain ⟨part', rfl, hpart⟩ := bind_eq_ok.mp hparsed
    unfold verifyParsed at h
    dsimp only at h
    split at h
    · cases h
    · cases h
    · next haccepted =>
      obtain ⟨hresult, rfl⟩ := Prod.mk.inj h
      exact ⟨part', rfl, ⟨parsed, hpart, (Except.ok.inj hresult).symm, _, rfl⟩, haccepted⟩

theorem verifyValue_eq_ok {jws : Value}
    (h : verifyValue platform verifier options jws calls = (.ok result, calls')) :
    ∃ part, IsPart options jws part ∧ Verified platform options verifier part result calls' := by
  unfold verifyValue at h
  split at h
  case h_7 =>
    split at h
    · obtain ⟨part, hpart, hverified⟩ := verifyPart_eq_ok h
      exact ⟨part, .general hpart, hverified⟩
    · obtain ⟨part, hpart, hverified⟩ := verifyPart_eq_ok h
      exact ⟨part, .flattened hpart, hverified⟩
  all_goals cases h

/-- A result is that of a part of the JWS. -/
theorem verify_eq_ok {jws : Value}
    (h : verify platform verifier options jws calls = (.ok result, calls')) :
    ∃ part, IsPart options jws part ∧ Verified platform options verifier part result calls' := by
  have hcompact : ∀ {s : String} {calls : List Call},
      verifyCompact platform verifier options s calls = (.ok result, calls') →
      ∃ part, IsPart options (str s) part ∧
      Verified platform options verifier part result calls' := by
    intro s calls h
    obtain ⟨part, hpart, hverified⟩ := verifyPart_eq_ok h
    exact ⟨part, .compact hpart, hverified⟩
  fun_induction verify platform verifier options jws calls with
  | case1 => exact hcompact h
  | case2 => exact hcompact h
  | case3 s parsed hparse _ ih =>
    obtain ⟨part, hpart, hverified⟩ := ih h
    exact ⟨part, .parsed hparse hpart, hverified⟩
  | case4 => exact verifyValue_eq_ok h

/-! ## Encoded headers -/

theorem zBase64Url_eq_some {v w : Value} (h : zBase64Url v = some w) :
    ∃ s, w = str s ∧ isBase64Url s.toList = true := by
  unfold zBase64Url textWhere at h
  split at h
  · next s =>
    split_ifs at h with hs
    exact ⟨s, (Option.some.inj h).symm, hs⟩
  · cases h

/-- An optional text of a strict object is absent, or base64url. -/
theorem textOf?_get_strictObject {shape : List (String × Schema)}
    (hn : (keys shape).Nodup) {key : String} (hs : (key, optional zBase64Url) ∈ shape)
    (hkey : inherited key = undefined) {v w : Value} (h : strictObject shape v = some w)
    {s : String} (hget : textOf? (w.get key) = some s) :
    isBase64Url s.toList = true := by
  obtain ⟨members, known, rfl, -, hknown, rfl⟩ := strictObject_eq_some h
  have hvalue := lookup_of_parseShape hn hs hknown
  have hget' : (obj known).get key = (known.lookup key).getD undefined := by rw [Value.get, hkey]
  rw [← hget'] at hvalue
  by_cases hundefined : (members.lookup key).getD undefined = undefined
  · rw [hundefined] at hvalue
    cases (Option.some.inj hvalue).symm ▸ hget
  · rw [optional_of_ne hundefined] at hvalue
    obtain ⟨t, ht, ht'⟩ := zBase64Url_eq_some hvalue
    rw [ht] at hget
    cases hget
    exact ht'

theorem generalPart_eq_ok {jws : Value} {index : ℕ} (h : generalPart jws index = .ok part) :
    ∃ data item selected, zGeneralJws jws = some data ∧ zJwsSignature item = some selected ∧
      part = partOf selected (data.get "payload") := by
  unfold generalPart at h
  split at h
  · cases h
  · next data hdata =>
    split at h
    · cases h
    · next selected hselected =>
      obtain ⟨members, known, rfl, -, hknown, rfl⟩ := strictObject_eq_some hdata
      have hsignatures := lookup_of_parseShape (by decide) (.tail _ (.head _)) hknown
      have hget : (obj known).get "signatures" = (known.lookup "signatures").getD undefined := rfl
      rw [← hget] at hsignatures
      unfold arrayOfAtLeast at hsignatures
      split at hsignatures
      · split_ifs at hsignatures
        obtain ⟨items, hitems, harr⟩ := Option.map_eq_some_iff.mp hsignatures
        rw [← harr] at hselected
        obtain ⟨item, hitem⟩ := exists_of_mem_mapM hitems (List.mem_of_getElem? hselected)
        exact ⟨_, item, selected, hdata, hitem, (Except.ok.inj h).symm⟩
      · cases hsignatures

/-- An encoded header has no period. -/
theorem dot_not_mem_encodedHeader {jws : Value} (h : IsPart options jws part) {encoded : String}
    (hencoded : part.encodedHeader = some encoded) : '.' ∉ encoded.toList := by
  induction h with
  | compact h =>
    next jws =>
    unfold compactPart at h
    split at h
    · next header payload signature hsplit =>
      cases h
      cases hencoded
      exact not_mem_of_mem_split (hsplit ▸ List.mem_cons_self)
    · cases h
  | general h =>
    obtain ⟨data, item, selected, -, hselected, rfl⟩ := generalPart_eq_ok h
    exact dot_not_mem_of_isBase64Url
      (textOf?_get_strictObject (by decide) (.head _) rfl hselected hencoded)
  | flattened h =>
    unfold flattenedPart at h
    split at h
    · cases h
    · next data hdata =>
      cases h
      exact dot_not_mem_of_isBase64Url
        (textOf?_get_strictObject (by decide) (.head _) rfl hdata hencoded)
  | parsed _ _ ih => exact ih hencoded

/-! ## Parsed signatures -/

def VerifyOptions.supplied (options : VerifyOptions) : Option Bytes :=
  options.detachedPayload.map DetachedPayload.toBytes

/-- What a parsed signature consists of. -/
structure ParsedFrom (platform : Platform) (options : VerifyOptions) (part : SignaturePart)
    (parsed : ParsedSignature) (encoded : String) : Prop where
  encodedHeader : part.encodedHeader = some encoded
  header : parseProtected platform (some encoded) = .ok parsed.header
  bytes : rawPayloadBytes parsed.header part.payload options.supplied = .ok parsed.rawPayloadBytes
  hasPayload : part.payload = none → options.supplied = none → isObjectDigest parsed.header = true
  signingInput :
    parsed.signingInput = encoded ++ "." ++
    signingPayload parsed.header part.payload options.supplied

theorem parseSignature_eq_ok {parsed : ParsedSignature}
    (h : parseSignature platform options part = .ok parsed) :
    ∃ encoded, ParsedFrom platform options part parsed encoded := by
  obtain ⟨header, hheader, h⟩ := bind_eq_ok.mp h
  obtain ⟨encoded, hencoded⟩ : ∃ encoded, part.encodedHeader = some encoded := by
    cases hencoded : part.encodedHeader with
    | none =>
      rw [hencoded] at hheader
      cases hheader
    | some encoded => exact ⟨encoded, rfl⟩
  dsimp only at h
  split at h
  · cases h
  · split_ifs at h with hpayload
    · cases h
    · obtain ⟨bytes, hbytes, h⟩ := bind_eq_ok.mp h
      obtain ⟨unprotected, -, h⟩ := bind_eq_ok.mp h
      cases h
      refine ⟨encoded, hencoded, hencoded ▸ hheader, hbytes, fun hnone hsupplied => ?_, by
        rw [hencoded]; rfl⟩
      by_contra hdigest
      exact hpayload ⟨hnone, hsupplied, by simpa using hdigest⟩

/-- A payload that a call brings: the one that is supplied, else the one that is embedded,
decoded. -/
def Brings (options : VerifyOptions) (part : SignaturePart) (header : Value)
    (bytes : Bytes) : Prop :=
  options.supplied = some bytes ∨
    options.supplied = none ∧ ∃ embedded, part.payload = some embedded ∧
    decodePayload header embedded = .ok bytes

/-- The payload that a call brings is the one that is signed: no payload, or one that the digests
cover, where the mechanism signs none; and a text, where it is supplied and signed as it is. -/
structure BringsSigned (platform : Platform) (covers : Value → Bytes → Prop)
    (options : VerifyOptions) (part : SignaturePart) : Prop where
  digest : ∀ header, parseProtected platform part.encodedHeader = .ok header →
    isObjectDigest header = true →
    ∀ bytes, Brings options part header bytes → bytes = [] ∨ covers (header.get "sigD") bytes
  text : ∀ header, parseProtected platform part.encodedHeader = .ok header →
    isObjectDigest header = false →
    isUnencoded header = true → ∀ bytes, options.supplied = some bytes → isUtf8 bytes = true

theorem contentOf_signingInput {parsed : ParsedSignature} {encoded : String}
    (h : ParsedFrom platform options part parsed encoded) (hdot : '.' ∉ encoded.toList)
    {content : Value × Bytes} :
    contentOf platform parsed.signingInput = .ok content ↔ content.1 = parsed.header ∧
      decodePayload parsed.header (signingPayload parsed.header part.payload options.supplied) =
        .ok content.2 := by
  rw [contentOf, h.signingInput, splitSigningInput_append hdot, h.header, ok_bind]
  constructor
  · intro hcontent
    obtain ⟨bytes, hbytes, hcontent⟩ := bind_eq_ok.mp hcontent
    cases hcontent
    exact ⟨rfl, hbytes⟩
  · rintro ⟨hheader, hbytes⟩
    exact bind_eq_ok.mpr ⟨content.2, hbytes, by rw [← hheader]; rfl⟩

theorem brings_iff {parsed : ParsedSignature} {encoded : String}
    (h : ParsedFrom platform options part parsed encoded) {bytes : Bytes}
    (hbytes : Brings options part parsed.header bytes) : parsed.rawPayloadBytes = bytes := by
  have hraw := h.bytes
  rcases hbytes with hsupplied | ⟨hsupplied, embedded, hembedded, hdecoded⟩
  · rw [hsupplied] at hraw
    exact (Except.ok.inj hraw).symm
  · rw [hsupplied, hembedded] at hraw
    exact Except.ok.inj (hraw.symm.trans hdecoded)

/-- The payload of a call that brings none is empty. -/
theorem brings_or_nil {parsed : ParsedSignature} {encoded : String}
    (h : ParsedFrom platform options part parsed encoded) :
    Brings options part parsed.header parsed.rawPayloadBytes ∨ parsed.rawPayloadBytes = [] := by
  have hraw := h.bytes
  cases hsupplied : options.supplied with
  | some bytes =>
    rw [hsupplied] at hraw
    exact .inl (.inl (hsupplied.trans (congrArg some (Except.ok.inj hraw))))
  | none =>
    rw [hsupplied] at hraw
    cases hembedded : part.payload with
    | none =>
      rw [hembedded] at hraw
      exact .inr (Except.ok.inj hraw).symm
    | some embedded =>
      rw [hembedded] at hraw
      exact .inl (.inr ⟨hsupplied, embedded, hembedded, hraw⟩)

/-- Where the mechanism signs the payload, the bytes that are returned are those that the signing
input says unless they are supplied and lose something when they are signed as a text. -/
theorem decodePayload_signingPayload {parsed : ParsedSignature} {encoded : String}
    (h : ParsedFrom platform options part parsed encoded)
    (hdigest : isObjectDigest parsed.header = false) :
    decodePayload parsed.header (signingPayload parsed.header part.payload options.supplied) =
      .ok parsed.rawPayloadBytes ↔
      (isUnencoded parsed.header = true → ∀ bytes, options.supplied = some bytes →
        isUtf8 bytes = true) := by
  have hraw := h.bytes
  unfold signingPayload
  rw [hdigest, if_neg Bool.false_ne_true]
  cases hsupplied : options.supplied with
  | none =>
    rw [hsupplied] at hraw
    refine iff_of_true ?_ fun _ _ => nofun
    cases hembedded : part.payload with
    | none =>
      have := h.hasPayload hembedded hsupplied
      rw [hdigest] at this
      cases this
    | some embedded =>
      rw [hembedded] at hraw
      exact hraw
  | some bytes =>
    rw [hsupplied] at hraw
    obtain rfl : bytes = parsed.rawPayloadBytes := Except.ok.inj hraw
    cases hunencoded : isUnencoded parsed.header with
    | false => exact iff_of_true (decodePayload_bytesToBase64Url hunencoded _) nofun
    | true =>
      dsimp only
      rw [if_pos rfl, decodePayload, if_pos hunencoded, Except.ok.injEq, stringToBytes_bytesToText]
      exact ⟨fun hutf8 _ bytes hbytes => Option.some.inj hbytes ▸ hutf8, fun hall => hall rfl _ rfl⟩

/-- What is returned is what was signed exactly when the call brings the payload that is signed.
Another result that is what the same signing input says has the same header, and the same payload
where the mechanism signs it. -/
theorem returnsSigned_iff (covers : Value → Bytes → Prop) {jws : Value} {call : Call}
    {earlier : List Call}
    (h : verify platform verifier options jws [] = (.ok result, call :: earlier)) :
    verifier (call :: earlier) = .ok true ∧
      (∃ part, IsPart options jws part ∧
        Verified platform options verifier part result (call :: earlier)) ∧
      (∀ part, IsPart options jws part →
        Verified platform options verifier part result (call :: earlier) →
        (ReturnsSigned platform covers call.data result ↔
          BringsSigned platform covers options part)) ∧
      ∀ result', ReturnsSigned platform covers call.data result →
      ReturnsSigned platform covers call.data result' →
        result'.header = result.header ∧
          (isObjectDigest result.header = false →
            result'.rawPayloadBytes = result.rawPayloadBytes) := by
  obtain ⟨part, hpart, hverified⟩ := verify_eq_ok h
  refine ⟨hverified.accepted, ⟨part, hpart, hverified⟩, ?_, ?_⟩
  · rintro part hpart ⟨⟨parsed, hparsed, rfl, earlier', hcall⟩, -⟩
    obtain ⟨encoded, hfrom⟩ := parseSignature_eq_ok hparsed
    have hdot := dot_not_mem_encodedHeader hpart hfrom.encodedHeader
    have hheader : parseProtected platform part.encodedHeader = .ok parsed.header := by
      rw [hfrom.encodedHeader]
      exact hfrom.header
    obtain ⟨rfl, -⟩ := List.cons.inj hcall
    dsimp only
    constructor
    · rintro ⟨bytes, hcontent, hbytes⟩
      obtain ⟨-, hdecoded⟩ := (contentOf_signingInput hfrom hdot).mp hcontent
      dsimp only at hdecoded
      constructor
      · intro header hparsed hdigest bytes' hbrings
        obtain rfl : header = parsed.header := Except.ok.inj (hparsed.symm.trans hheader)
        obtain rfl := brings_iff hfrom hbrings
        rw [signingPayload_of_isObjectDigest hdigest, decodePayload_empty] at hdecoded
        obtain rfl := Except.ok.inj hdecoded
        exact hbytes.imp id And.right
      · intro header hparsed hdigest
        obtain rfl : header = parsed.header := Except.ok.inj (hparsed.symm.trans hheader)
        rcases hbytes with hbytes | ⟨hdigest', -⟩
        · exact (decodePayload_signingPayload hfrom hdigest).mp (hbytes ▸ hdecoded)
        · rw [hdigest] at hdigest'
          cases hdigest'
    · intro hsigned
      cases hdigest : isObjectDigest parsed.header with
      | true =>
        refine ⟨[], (contentOf_signingInput hfrom hdot).mpr ⟨rfl, ?_⟩, ?_⟩
        · rw [signingPayload_of_isObjectDigest hdigest, decodePayload_empty]
        · rcases brings_or_nil hfrom with hbrings | hnil
          · exact (hsigned.digest _ hheader hdigest _ hbrings).imp id fun hcovers =>
              ⟨hdigest, hcovers⟩
          · exact .inl hnil
      | false =>
        exact ⟨_, (contentOf_signingInput hfrom hdot).mpr
          ⟨rfl, (decodePayload_signingPayload hfrom hdigest).mpr
            (hsigned.text _ hheader hdigest)⟩, .inl rfl⟩
  · rintro result' ⟨bytes, hcontent, hbytes⟩ ⟨bytes', hcontent', hbytes'⟩
    obtain ⟨hheader, rfl⟩ := Prod.mk.inj (Except.ok.inj (hcontent.symm.trans hcontent'))
    refine ⟨hheader.symm, fun hdigest => ?_⟩
    have hsame := hbytes.resolve_right fun hcovers => by
      rw [hdigest] at hcovers
      cases hcovers.1
    have hsame' := hbytes'.resolve_right fun hcovers => by
      rw [← hheader, hdigest] at hcovers
      cases hcovers.1
    rw [hsame, hsame']

end

/-! ## A payload that is not signed -/

/-- A platform that knows the texts of the example. -/
def examplePlatform : Platform where
  isUri value := "http".toList <+: value.toList
  dateParse _ := none
  toLowerCase := toLowerCase

/-- A header whose mechanism signs the digests of the payload only. -/
def digestHeader : Value :=
  obj [("alg", str "ES256"), ("x5t#S256", str "YWJj"), ("iat", num 1780000000),
    ("crit", arr [str "sigD"]),
      ("sigD", obj [("mId", str objectByUriHash), ("pars", arr [str "https://example.test/object"]),
      ("hashM", str "S256"), ("hashV", arr [str "YWJj"])])]

def digestJws (payload : String) : Value :=
  obj [("protected", str (encodeJson digestHeader)), ("payload", str payload),
    ("signature", str "c2ln")]

/-- The only signature that a callback accepts. -/
def acceptsOnly (call : Call) : SignatureVerifier := fun calls => .ok (calls.head? = some call)

def digestCall : Call := ⟨encodeJson digestHeader ++ "." ++ "", "c2ln"⟩

theorem isJson_digestHeader : digestHeader.IsJson := .of_isJson (by decide)

theorem zProtectedHeader_digestHeader :
    ∃ header, zProtectedHeader examplePlatform digestHeader = some header ∧
    isObjectDigest header = true ∧ textsOf (header.get "crit") = ["sigD"] ∧
    isUnencoded header = false := by
  have hany : (zProtectedHeader examplePlatform digestHeader).any (fun header =>
      isObjectDigest header && textsOf (header.get "crit") = ["sigD"] && !isUnencoded header) =
        true := by decide +kernel
  obtain ⟨header, hheader, hany⟩ := (Option.any_eq_true _ _).mp hany
  obtain ⟨hany, hencoded⟩ := Bool.and_eq_true_iff.mp hany
  obtain ⟨hdigest, hcrit⟩ := Bool.and_eq_true_iff.mp hany
  exact ⟨header, hheader, hdigest, of_decide_eq_true hcrit, by simpa using hencoded⟩

theorem zFlattenedJws_of {encoded payload signature : String}
    (hencoded : isBase64Url encoded.toList = true)
    (hsignature : isBase64Url signature.toList = true) :
    zFlattenedJws (obj [("protected", str encoded), ("payload", str payload),
      ("signature", str signature)]) =
      some (obj [("protected", str encoded), ("payload", str payload),
        ("signature", str signature)]) := by
  refine strictObject_of_parseShape (by simp [keys]) ?_
  refine parseShape_cons.mpr ⟨str encoded, _, if_pos hencoded, ?_, rfl⟩
  refine parseShape_cons.mpr ⟨undefined, _, rfl, ?_, rfl⟩
  refine parseShape_cons.mpr ⟨str payload, _, rfl, ?_, rfl⟩
  exact parseShape_cons.mpr ⟨str signature, [], if_pos hsignature, rfl, rfl⟩

/-- A signature by the digest mechanism is verified with any payload beside it. -/
theorem verify_digestJws {payload : String} {bytes : Bytes}
    (hpayload : Base64url.decode payload.toList = .ok bytes) {header : Value}
    (hheader : zProtectedHeader examplePlatform digestHeader = some header)
    (hdigest : isObjectDigest header = true) (hcrit : textsOf (header.get "crit") = ["sigD"])
    (hencoded : isUnencoded header = false) :
    ∃ result, verify examplePlatform (acceptsOnly digestCall) {} (digestJws payload) [] =
      (.ok result, [digestCall]) ∧
      result.header = header ∧ result.rawPayloadBytes = bytes := by
  have hnormal := Json.normal_of_isJson isJson_digestHeader
  have hbase64 := isBase64Url_encodeJson isJson_digestHeader.distinct hnormal
  have hpart : flattenedPart (digestJws payload) =
      .ok ⟨some (encodeJson digestHeader), some payload, "c2ln", undefined⟩ := by
    rw [flattenedPart, digestJws, zFlattenedJws_of hbase64 (by decide)]
    rfl
  have hbytes : rawPayloadBytes header (some payload) none = .ok bytes := by
    rw [rawPayloadBytes, decodePayload, hencoded, hpayload]
    rfl
  have hparsed := parseSignature_of {} ⟨some (encodeJson digestHeader), some payload,
    "c2ln", undefined⟩ rfl
    (parseProtected_encodeJson isJson_digestHeader.distinct hnormal hheader)
      (by simp [hcrit, criticalParameters])
    (fun h => by cases h) hbytes rfl
  rw [signingPayload_of_isObjectDigest hdigest] at hparsed
  refine ⟨⟨header, parsePayload (bytesToText bytes), bytesToText bytes,
    bytes, none, true⟩, ?_, rfl, rfl⟩
  have hvalue : verify examplePlatform (acceptsOnly digestCall) {} (digestJws payload) [] =
      verifyFlattened examplePlatform (acceptsOnly digestCall) {} (digestJws payload) [] := by
    have hmember : ¬hasMember "signatures" (digestJws payload) = true := by
      rw [digestJws, hasMember_signatures]
      simp [keys]
    rw [digestJws] at hmember ⊢
    rw [verify_obj, if_neg hmember]
  rw [hvalue, verifyFlattened, hpart]
  exact verifyPart_of hparsed (congrArg Except.ok (decide_eq_true rfl))

/-- Two payloads are returned as verified by the same signature. -/
theorem digest_payload_not_signed : ∃ result result',
    verify examplePlatform (acceptsOnly digestCall) {} (digestJws "YQ") [] =
      (.ok result, [digestCall]) ∧
      verify examplePlatform (acceptsOnly digestCall) {} (digestJws "Yg") [] =
        (.ok result', [digestCall]) ∧
      isObjectDigest result.header = true ∧ result.rawPayloadBytes = [97] ∧
      result'.rawPayloadBytes = [98] := by
  obtain ⟨header, hheader, hdigest, hcrit, hencoded⟩ := zProtectedHeader_digestHeader
  have hpayload : Base64url.decode "YQ".toList = .ok [97] := rfl
  have hpayload' : Base64url.decode "Yg".toList = .ok [98] := rfl
  obtain ⟨result, hresult, hsame, hbytes⟩ :=
    verify_digestJws hpayload hheader hdigest hcrit hencoded
  obtain ⟨result', hresult', -, hbytes'⟩ :=
    verify_digestJws hpayload' hheader hdigest hcrit hencoded
  exact ⟨result, result', hresult, hresult', hsame ▸ hdigest, hbytes, hbytes'⟩

theorem returnsSigned_iff_digestJws : ∃ result,
    verify examplePlatform (acceptsOnly digestCall) {} (digestJws "YQ") [] =
      (.ok result, [digestCall]) ∧
      ∀ part, IsPart {} (digestJws "YQ") part →
        Verified examplePlatform {} (acceptsOnly digestCall) part result [digestCall] →
        (ReturnsSigned examplePlatform (fun _ _ => False) digestCall.data result ↔
          BringsSigned examplePlatform (fun _ _ => False) {} part) := by
  obtain ⟨header, hheader, hdigest, hcrit, hencoded⟩ := zProtectedHeader_digestHeader
  have hpayload : Base64url.decode "YQ".toList = .ok [97] := rfl
  obtain ⟨result, hresult, -, -⟩ := verify_digestJws hpayload hheader hdigest hcrit hencoded
  exact ⟨result, hresult, (returnsSigned_iff _ hresult).2.2.1⟩

end IdentityCommon.Jades
