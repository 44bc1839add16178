import IdentityCommon.Jades.TokenInvariant

/-!
# Verification of a serialized token

The serializations of a signed token are verified over the signing input of the token.

## Main definitions

- `Token.readHeader` — the header that a verifier reads
- `Token.IsSigned` — a signature that the token can be serialized with
- `Token.VerifiesAs` — a JWS that is verified over the signing input, with the payload of the token

## Main results

- `reads_of_readHeader` — what the header of a token is read as
- `verifiesAs_compact`, `verifiesAs_json`, `verifiesAs_flattened` — the serializations verify
-/

namespace IdentityCommon.Jades

open Ecma AssocList Value Common IdentityCommon.Except

/-! ## What is read back -/

/-- A value as it is read back from JSON. -/
def readBack (v : Value) : Value := (Json.normal v).getD undefined

theorem readBack_get {v : Value} (h : v.Distinct) {key : String}
    (hkey : inherited key = undefined) :
    (readBack v).get key = readBack (v.get key) := by
  cases h with
  | leaf l =>
    cases l
    case objectPrototype =>
      have hproto : key ≠ "__proto__" := by
        rintro rfl
        cases hkey
      rw [show (leaf .objectPrototype).get key = inherited key from if_neg hproto, hkey]
      exact (get_obj hkey []).trans rfl
    case host =>
      rw [show (leaf (.host _)).get key = inherited key from rfl, hkey]
      exact (get_obj hkey []).trans rfl
    all_goals rfl
  | arr _ => rfl
  | obj hnodup _ =>
    rw [show readBack (obj _) = obj (Json.normalMembers _) from rfl, get_obj hkey, get_obj hkey,
      Json.lookup_normalMembers hnodup]
    cases List.lookup key _ <;> rfl

theorem isFalse_readBack (v : Value) : isFalse (readBack v) = isFalse v := by
  cases v with
  | leaf l => cases l <;> rfl
  | arr _ => rfl
  | obj _ => rfl

theorem isText_readBack (text : String) (v : Value) : isText text (readBack v) = isText text v := by
  cases v with
  | leaf l => cases l <;> rfl
  | arr _ => rfl
  | obj _ => rfl

theorem textsOf_readBack (v : Value) : textsOf (readBack v) = textsOf v := by
  cases v with
  | leaf l => cases l <;> rfl
  | obj _ => rfl
  | arr items =>
    change List.filterMap _ (Json.normalItems items) = List.filterMap _ items
    induction items with
    | nil => rfl
    | cons item items ih =>
      rw [Json.normalItems, List.filterMap_cons, List.filterMap_cons, ih]
      cases item with
      | leaf l => cases l <;> rfl
      | arr _ => rfl
      | obj _ => rfl

/-! ## The header that is read -/

section

variable {platform : Platform} {j header : Value}

theorem mId_zSigD {v w : Value} (h : optional (zSigD platform) v = some w) :
    w.get "mId" = v.get "mId" := by
  by_cases hv : v = undefined
  · subst hv
    cases h
    rfl
  · rw [optional_of_ne hv] at h
    exact get_strictObject (by simp [keys]) (.head _) (keeps_textWhere _) rfl
      (Option.filter_eq_some_iff.mp h).1

theorem isObjectDigest_zProtectedHeader (h : zProtectedHeader platform j = some header) :
    isObjectDigest header = isObjectDigest j := by
  have hmem : ("sigD", optional (zSigD platform)) ∈ protectedHeaderShape platform := by
    simp [protectedHeaderShape]
  have hsigD := schema_get_of_looseObject (nodup_protectedHeaderShape platform) hmem rfl
    (Option.filter_eq_some_iff.mp h).1
  rw [isObjectDigest, isObjectDigest, mId_zSigD hsigD]

theorem isUnencoded_zProtectedHeader (h : zProtectedHeader platform j = some header) :
    isUnencoded header = isUnencoded j := by
  have hmem : ("b64", optional zBoolean) ∈ protectedHeaderShape platform := by
    simp [protectedHeaderShape]
  rw [isUnencoded, isUnencoded,
    get_looseObject (nodup_protectedHeaderShape platform) hmem exact_zBoolean.keeps.optional
    (Option.filter_eq_some_iff.mp h).1]

theorem crit_zProtectedHeader (h : zProtectedHeader platform j = some header) :
    header.get "crit" = j.get "crit" := by
  have hmem : ("crit", optional (arrayOfAtLeast 1 zText)) ∈ protectedHeaderShape platform := by
    simp [protectedHeaderShape]
  exact get_looseObject (nodup_protectedHeaderShape platform) hmem
    ((keeps_textWhere _).arrayOfAtLeast 1).optional (Option.filter_eq_some_iff.mp h).1

end

namespace Token

variable (platform : Platform) (token : Token)

/-- The header that a verifier reads of the encoded one. -/
def readHeader : Option Value :=
  (Json.normal (obj token.finalHeader)).bind (zProtectedHeader platform)

variable {platform token}

theorem get_finalHeader {key : String} (hkey : inherited key = undefined) (hne : key ≠ "crit") :
    (obj token.finalHeader).get key = (obj token.protectedHeader).get key := by
  unfold finalHeader
  split_ifs
  · rfl
  · rw [get_obj hkey, get_obj hkey, lookup_insert, if_neg hne]

theorem distinct_finalHeader (h : token.Inv platform) : (obj token.finalHeader).Distinct := by
  unfold finalHeader
  split_ifs
  · exact h.distinct
  · refine distinct_insert h.distinct (.arr fun x hx => ?_)
    obtain ⟨s, -, rfl⟩ := List.mem_map.mp hx
    exact .leaf _

/-- What a verifier reads of the header is what the token has in it. -/
structure Reads (platform : Platform) (token : Token) (header : Value) : Prop where
  parsed : parseProtected platform (some token.encodedProtectedHeader) = .ok header
  isObjectDigest : Jades.isObjectDigest header = token.isObjectDigest
  isUnencoded : Jades.isUnencoded header = token.isUnencoded
  crit : textsOf (header.get "crit") = textsOf ((obj token.finalHeader).get "crit")

theorem reads_of_readHeader (h : token.Inv platform) {header : Value}
    (hread : token.readHeader platform = some header) :
    token.Reads platform header := by
  obtain ⟨j, hj, hheader⟩ := Option.bind_eq_some_iff.mp hread
  have hdistinct := distinct_finalHeader h
  have hback : readBack (obj token.finalHeader) = j := by rw [readBack, hj, Option.getD_some]
  constructor
  · exact parseProtected_encodeJson hdistinct hj hheader
  · rw [isObjectDigest_zProtectedHeader hheader, Jades.isObjectDigest, ← hback,
      readBack_get hdistinct rfl, readBack_get (distinct_get hdistinct rfl) rfl, isText_readBack,
      get_finalHeader rfl (by decide)]
    rfl
  · rw [isUnencoded_zProtectedHeader hheader, Jades.isUnencoded, ← hback,
      readBack_get hdistinct rfl, isFalse_readBack, get_finalHeader rfl (by decide)]
    rfl
  · rw [crit_zProtectedHeader hheader, ← hback, readBack_get hdistinct rfl, textsOf_readBack]

theorem record_eq_some {v w : Value} (h : record v = some w) :
    ∃ members, v = obj members ∧ record (obj members) = some w := by
  unfold record at h
  split at h
  · exact ⟨_, rfl, h⟩
  · cases h

/-! ## Signed tokens -/

/-- A signature that the token can be serialized with: it is one over the signing input, which can
be read again, and a payload that is attached as it is is a text. -/
structure IsSigned (platform : Platform) (token : Token) (signed : List Call)
    (signature : String) : Prop where
  mem : ⟨token.signingInput, signature⟩ ∈ signed
  base64Url : isBase64Url signature.toList = true
  valid : token.validateBeforeSign platform = .ok ()
  reads : ∃ header, token.readHeader platform = some header
  text : token.isUnencoded = true → token.detached = false → isUtf8 token.payloadBytes = true

/-- The options of a verifier of the token: the detached payload exactly where it is detached, and
the critical parameters of its header as understood. -/
structure Fits (token : Token) (options : VerifyOptions) : Prop where
  detachedPayload : options.detachedPayload.map DetachedPayload.toBytes =
    if token.detached then some token.payloadBytes else none
  understood : ∀ parameter ∈ textsOf ((obj token.finalHeader).get "crit"),
    parameter ∈ options.understoodCriticalParameters
  signatureIndex : options.signatureIndex.getD 0 = 0

/-- A JWS is verified by the only call of the callback, over the signing input of the token with a
signature that a signer returned for it; and what is returned is the payload and the headers of the
token. -/
def VerifiesAs (platform : Platform) (token : Token) (signed : List Call) (options : VerifyOptions)
    (jws : Value) : Prop :=
  ∃ call ∈ signed, call.data = token.signingInput ∧ token.signature = some call.signature ∧
    ∀ verifier, (verify platform verifier options jws []).2 = [call] ∧
      (verifier [call] = .ok true → ∃ result, verify platform verifier options jws [] =
        (.ok result, [call]) ∧
        token.readHeader platform = some result.header ∧
          result.rawPayloadBytes = token.payloadBytes ∧
        result.unprotectedHeader = token.unprotectedHeader)

/-- The part of a serialization: the payload is left out, or empty, where the token is detached. -/
structure IsPartOf (token : Token) (part : SignaturePart) (signature : String) : Prop where
  encodedHeader : part.encodedHeader = some token.encodedProtectedHeader
  payload : if token.detached then part.payload = none ∨ part.payload = some "" else
    part.payload = some token.attachedPayloadSegment
  signature : part.signature = signature
  unprotected : part.unprotected = token.unprotectedHeader.getD undefined

theorem parseUnprotected_getD (h : token.Inv platform) :
    parseUnprotected platform (token.unprotectedHeader.getD undefined) =
      .ok token.unprotectedHeader := by
  cases hheader : token.unprotectedHeader with
  | none => rfl
  | some header =>
    obtain ⟨hsettles, hrecord⟩ := h.unprotected header hheader
    rw [Option.getD_some]
    unfold parseUnprotected
    split
    · cases hrecord
    · rw [hsettles]

/-- The digest mechanism is only used with a detached payload. -/
theorem detached_of_isObjectDigest (hvalid : token.validateBeforeSign platform = .ok ())
    (hdigest : token.isObjectDigest = true) : token.detached = true := by
  unfold validateBeforeSign at hvalid
  dsimp only at hvalid
  split_ifs at hvalid with hsigning hdetached
  have hsigD : ((obj token.finalHeader).get "sigD").truthy = true := by
    rw [get_finalHeader rfl (by decide)]
    unfold isObjectDigest Jades.isObjectDigest at hdigest
    cases hvalue : (obj token.protectedHeader).get "sigD" with
    | leaf l =>
      rw [hvalue] at hdigest
      cases l
      case objectPrototype => rfl
      case host => rfl
      all_goals cases hdigest
    | arr _ => rfl
    | obj _ => rfl
  rw [hsigD, Bool.true_and, Bool.not_eq_true', Bool.not_eq_false] at hdetached
  exact hdetached

/-- The payload that is signed is the one that a verifier is given, and it is decoded to the payload
bytes. -/
theorem payload_of_isPartOf (h : token.Inv platform) {signed : List Call} {signature : String}
    (hsigned : token.IsSigned platform signed signature) {part : SignaturePart}
    (hpart : token.IsPartOf part signature) {options : VerifyOptions} (hfits : token.Fits options)
    {header : Value} (hreads : token.Reads platform header) :
    rawPayloadBytes header part.payload (options.detachedPayload.map DetachedPayload.toBytes) =
      .ok token.payloadBytes ∧
      signingPayload header part.payload (options.detachedPayload.map DetachedPayload.toBytes) =
        token.signingPayloadSegment := by
  have hpayload := hpart.payload
  rw [hfits.detachedPayload]
  unfold signingPayload signingPayloadSegment
  rw [hreads.isObjectDigest]
  cases hdetached : token.detached with
  | true =>
    rw [if_pos rfl]
    refine ⟨by cases part.payload <;> rfl, ?_⟩
    cases token.isObjectDigest with
    | true => rfl
    | false =>
      rw [if_neg Bool.false_ne_true, if_neg Bool.false_ne_true, attachedPayloadSegment,
        ← hreads.isUnencoded, h.text]
  | false =>
    rw [hdetached, if_neg Bool.false_ne_true] at hpayload
    have hdigest : token.isObjectDigest = false := by
      rw [Bool.eq_false_iff]
      intro hdigest
      rw [detached_of_isObjectDigest hsigned.valid hdigest] at hdetached
      cases hdetached
    rw [if_neg Bool.false_ne_true, hpayload, hdigest, if_neg Bool.false_ne_true]
    refine ⟨?_, rfl⟩
    rw [rawPayloadBytes, attachedPayloadSegment]
    cases hunencoded : token.isUnencoded with
    | true =>
      rw [if_pos rfl, decodePayload, if_pos (hreads.isUnencoded.trans hunencoded), h.text,
        stringToBytes_bytesToText.mpr (hsigned.text hunencoded hdetached)]
    | false =>
      rw [if_neg Bool.false_ne_true]
      exact decodePayload_bytesToBase64Url (hreads.isUnencoded.trans hunencoded) _

/-- A part of a signed token is verified over the signing input of the token. -/
theorem verifyPart_isPartOf (h : token.Inv platform) {signed : List Call} {signature : String}
    (hsigned : token.IsSigned platform signed signature) {part : SignaturePart}
    (hpart : token.IsPartOf part signature) {options : VerifyOptions} (hfits : token.Fits options)
    (verifier : SignatureVerifier) :
    (verifyPart platform verifier options (.ok part) []).2 = [⟨token.signingInput, signature⟩] ∧
      (verifier [⟨token.signingInput, signature⟩] = .ok true → ∃ result,
        verifyPart platform verifier options (.ok part) [] =
          (.ok result, [⟨token.signingInput, signature⟩]) ∧
          token.readHeader platform = some result.header ∧
            result.rawPayloadBytes = token.payloadBytes ∧
          result.unprotectedHeader = token.unprotectedHeader) := by
  obtain ⟨header, hread⟩ := hsigned.reads
  have hreads := reads_of_readHeader h hread
  obtain ⟨hbytes, hsigning⟩ := payload_of_isPartOf h hsigned hpart hfits hreads
  have hnopayload : part.payload = none → options.detachedPayload = none →
      Jades.isObjectDigest header = true := by
    intro hnone hsupplied
    have hpayload := hpart.payload
    have hdetached := hfits.detachedPayload
    rw [hsupplied, Option.map_none] at hdetached
    cases hd : token.detached with
    | true =>
      rw [hd, if_pos rfl] at hdetached
      cases hdetached
    | false =>
      rw [hd, if_neg Bool.false_ne_true, hnone] at hpayload
      cases hpayload
  have hparsed := parseSignature_of options part hpart.encodedHeader hreads.parsed
    (fun parameter hparameter => List.mem_append_right _
      (hfits.understood parameter (hreads.crit ▸ hparameter)))
    hnopayload hbytes (hpart.unprotected ▸ parseUnprotected_getD h)
  have hinput : token.encodedProtectedHeader ++ "." ++ token.signingPayloadSegment =
      token.signingInput := rfl
  rw [hsigning, hpart.signature, hinput] at hparsed
  generalize token.signingInput = signingInput at hparsed ⊢
  constructor
  · unfold verifyPart
    rw [Except.bind, hparsed]
    dsimp only
    unfold verifyParsed
    dsimp only
    split <;> rfl
  · intro haccepted
    exact ⟨_, verifyPart_of hparsed haccepted, hread, rfl, rfl⟩

/-! ## Serializations -/

theorem verifiesAs_of_part (h : token.Inv platform) {signed : List Call} {signature : String}
    (hsignature : token.signature = some signature)
    (hsigned : token.IsSigned platform signed signature) (part : SignaturePart)
    (hpart : token.IsPartOf part signature) {options : VerifyOptions} (hfits : token.Fits options)
    {jws : Value} (hverify : ∀ verifier, verify platform verifier options jws [] =
      verifyPart platform verifier options (.ok part) []) :
    token.VerifiesAs platform signed options jws := by
  refine ⟨⟨token.signingInput, signature⟩, hsigned.mem, rfl, hsignature, fun verifier => ?_⟩
  rw [hverify]
  exact verifyPart_isPartOf h hsigned hpart hfits verifier

theorem getSignature_eq_ok {signature : String} (h : token.getSignature = .ok signature) :
    token.signature = some signature := by
  unfold getSignature at h
  split at h
  · cases h
  · next hsignature =>
    cases h
    exact hsignature

theorem isBase64Url_encodedProtectedHeader (h : token.Inv platform) :
    isBase64Url token.encodedProtectedHeader.toList = true :=
  isBase64Url_encodeJson (distinct_finalHeader h) rfl

def compactPayload (token : Token) : String :=
  if token.detached then "" else token.attachedPayloadSegment

theorem toCompact_eq_ok {jws : String} (h : token.toCompact = .ok jws) :
    ∃ signature, token.signature = some signature ∧
    token.unprotectedHeader = none ∧
    (token.isUnencoded = true → '.' ∉ token.compactPayload.toList) ∧
    jws = token.encodedProtectedHeader ++ "." ++ token.compactPayload ++ "." ++ signature := by
  obtain ⟨signature, hsignature, h⟩ := bind_eq_ok.mp h
  refine ⟨signature, getSignature_eq_ok hsignature, ?_⟩
  dsimp only at h
  rw [← compactPayload] at h
  cases hunprotected : token.unprotectedHeader with
  | some header =>
    rw [hunprotected, Option.isSome_some, if_pos rfl] at h
    cases h
  | none =>
    rw [hunprotected, Option.isSome_none, if_neg Bool.false_ne_true] at h
    by_cases hperiod : (token.isUnencoded && token.compactPayload.toList.contains '.') = true
    · rw [if_pos hperiod] at h
      cases h
    · rw [if_neg hperiod] at h
      refine ⟨rfl, fun hunencoded hmem => hperiod ?_, (Except.ok.inj h).symm⟩
      rw [hunencoded, Bool.true_and]
      exact List.contains_iff_mem.mpr hmem

theorem dot_not_mem_compactPayload
    (h : token.isUnencoded = true → '.' ∉ token.compactPayload.toList) :
    '.' ∉ token.compactPayload.toList := by
  cases hunencoded : token.isUnencoded with
  | true => exact h hunencoded
  | false =>
    rw [compactPayload]
    split_ifs
    · exact List.not_mem_nil
    · rw [attachedPayloadSegment, hunencoded, if_neg Bool.false_ne_true, bytesToBase64Url,
        String.toList_ofList]
      exact fun hmem => absurd (Base64url.mem_chars_of_encode _ _ hmem) (by decide)

/-- The compact serialization verifies. -/
theorem verifiesAs_compact (h : token.Inv platform) {signed : List Call}
    (hsigned : ∀ signature, token.signature = some signature →
      token.IsSigned platform signed signature)
    {options : VerifyOptions} (hfits : token.Fits options) {jws : String}
    (hjws : token.toCompact = .ok jws) :
    token.VerifiesAs platform signed options (str jws) := by
  obtain ⟨signature, hsignature, hunprotected, hperiod, rfl⟩ := toCompact_eq_ok hjws
  have hsigned := hsigned signature hsignature
  have hheader := dot_not_mem_of_isBase64Url (isBase64Url_encodedProtectedHeader h)
  have hpayload := dot_not_mem_compactPayload hperiod
  have htext : token.encodedProtectedHeader ++ "." ++ token.compactPayload ++ "." ++ signature =
      join [token.encodedProtectedHeader, token.compactPayload, signature] '.' := by
    apply String.toList_injective
    simp [join, List.intercalate]
  have hsplit : split (token.encodedProtectedHeader ++ "." ++ token.compactPayload ++
      "." ++ signature) '.' =
      [token.encodedProtectedHeader, token.compactPayload, signature] := by
    rw [htext]
    refine split_join (List.cons_ne_nil _ _) ?_
    simpa using ⟨hheader, hpayload, dot_not_mem_of_isBase64Url hsigned.base64Url⟩
  have hparse : Json.parse (token.encodedProtectedHeader ++ "." ++ token.compactPayload ++ "." ++
      signature).toList =
      none := by
    simp only [String.toList_append, List.append_assoc]
    exact parse_encodeJson _ _
  refine verifiesAs_of_part h hsignature hsigned
    ⟨some token.encodedProtectedHeader, some token.compactPayload, signature, undefined⟩ ?_ hfits
      fun verifier => ?_
  · refine ⟨rfl, ?_, rfl, by rw [hunprotected]; rfl⟩
    rw [compactPayload]
    split_ifs
    · exact .inr rfl
    · rfl
  · rw [verify_str hparse, verifyCompact, compactPart, hsplit]

/-- The signature of a token, as it is read from the general serialization. -/
theorem zJwsSignature_of (h : token.Inv platform) {signature : String}
    (hsignature : isBase64Url signature.toList = true) :
    ∃ data, zJwsSignature
      (obj ([("protected", str token.encodedProtectedHeader), ("signature", str signature)] ++
        token.headerMember)) = some data ∧
      textOf? (data.get "protected") = some token.encodedProtectedHeader ∧
      textOf? (data.get "signature") = some signature ∧
      data.get "header" = token.unprotectedHeader.getD undefined := by
  have hencoded := isBase64Url_encodedProtectedHeader h
  generalize token.encodedProtectedHeader = encoded at hencoded ⊢
  rw [headerMember]
  cases hunprotected : token.unprotectedHeader with
  | none =>
    refine ⟨obj [("protected", str encoded), ("signature", str signature)],
      strictObject_of_parseShape (by simp [keys]) ?_, rfl, rfl, rfl⟩
    refine parseShape_cons.mpr ⟨str encoded, _, if_pos hencoded, ?_, rfl⟩
    refine parseShape_cons.mpr ⟨undefined, _, rfl, ?_, rfl⟩
    exact parseShape_cons.mpr ⟨str signature, [], if_pos hsignature, rfl, rfl⟩
  | some header =>
    obtain ⟨members, rfl, hrecord⟩ := record_eq_some (h.unprotected header hunprotected).2
    refine ⟨obj [("protected", str encoded), ("header", obj members), ("signature", str signature)],
      strictObject_of_parseShape (by simp [keys]) ?_, rfl, rfl, rfl⟩
    refine parseShape_cons.mpr ⟨str encoded, _, if_pos hencoded, ?_, rfl⟩
    refine parseShape_cons.mpr ⟨obj members, _, hrecord, ?_, rfl⟩
    exact parseShape_cons.mpr ⟨str signature, [], if_pos hsignature, rfl, rfl⟩

/-- The general serialization verifies. -/
theorem verifiesAs_json (h : token.Inv platform) {signed : List Call}
    (hsigned : ∀ signature, token.signature = some signature →
      token.IsSigned platform signed signature)
    {options : VerifyOptions} (hfits : token.Fits options) {jws : Value}
    (hjws : token.toJson = .ok jws) :
    token.VerifiesAs platform signed options jws := by
  obtain ⟨signature, hsignature, hjws⟩ := bind_eq_ok.mp hjws
  have hsignature := getSignature_eq_ok hsignature
  have hsigned := hsigned signature hsignature
  obtain ⟨data, hdata, hprotected, hdataSignature, hheader⟩ := zJwsSignature_of h hsigned.base64Url
  cases hjws
  have hgeneral : ∃ general, zGeneralJws (obj (token.payloadMember ++ [("signatures", arr [obj ([
        ("protected", str token.encodedProtectedHeader), ("signature", str signature)] ++
          token.headerMember)])])) =
        some general ∧ general.get "signatures" = arr [data] ∧
        textOf? (general.get "payload") = if token.detached then none
          else some token.attachedPayloadSegment := by
    generalize obj ([("protected", str token.encodedProtectedHeader),
      ("signature", str signature)] ++ token.headerMember) = item at hdata ⊢
    have hitems : arrayOfAtLeast 1 zJwsSignature (arr [item]) = some (arr [data]) := by
      rw [arrayOfAtLeast, if_pos (by simp), mapM_eq_some_cons.mpr ⟨data, [], hdata, rfl, rfl⟩]
      rfl
    rw [payloadMember]
    cases token.detached with
    | true =>
      refine ⟨obj [("signatures", arr [data])],
        strictObject_of_parseShape (by simp [keys]) ?_, rfl, rfl⟩
      refine parseShape_cons.mpr ⟨undefined, _, rfl, ?_, rfl⟩
      exact parseShape_cons.mpr ⟨arr [data], [], hitems, rfl, rfl⟩
    | false =>
      refine ⟨obj [("payload", str token.attachedPayloadSegment), ("signatures", arr [data])],
        strictObject_of_parseShape (by simp [keys]) ?_, rfl, rfl⟩
      refine parseShape_cons.mpr ⟨str token.attachedPayloadSegment, _, rfl, ?_, rfl⟩
      exact parseShape_cons.mpr ⟨arr [data], [], hitems, rfl, rfl⟩
  obtain ⟨general, hgeneral, hsignatures, hpayload⟩ := hgeneral
  refine verifiesAs_of_part h hsignature hsigned (partOf data (general.get "payload")) ?_ hfits
    fun verifier => ?_
  · refine ⟨hprotected, ?_, by rw [partOf, hdataSignature]; rfl, hheader⟩
    rw [partOf, hpayload]
    split_ifs
    · exact .inl rfl
    · rfl
  · rw [verify_obj, if_pos (hasMember_signatures.mpr (by simp [keys])), verifyGeneral,
      generalPart, hgeneral, hfits.signatureIndex]
    dsimp only
    rw [hsignatures]
    rfl

/-- The flattened serialization verifies. -/
theorem verifiesAs_flattened (h : token.Inv platform) {signed : List Call}
    (hsigned : ∀ signature, token.signature = some signature →
      token.IsSigned platform signed signature)
    {options : VerifyOptions} (hfits : token.Fits options) {jws : Value}
    (hjws : token.toFlattenedJson = .ok jws) :
    token.VerifiesAs platform signed options jws := by
  obtain ⟨signature, hsignature, hjws⟩ := bind_eq_ok.mp hjws
  have hsignature := getSignature_eq_ok hsignature
  have hsigned := hsigned signature hsignature
  have hencoded := isBase64Url_encodedProtectedHeader h
  cases hjws
  have hdata : ∃ data, zFlattenedJws (obj ([("protected", str token.encodedProtectedHeader),
        ("signature", str signature)] ++ token.payloadMember ++ token.headerMember)) = some data ∧
      textOf? (data.get "protected") = some token.encodedProtectedHeader ∧
      textOf? (data.get "signature") = some signature ∧
      data.get "header" = token.unprotectedHeader.getD undefined ∧
      textOf? (data.get "payload") = if token.detached then none
        else some token.attachedPayloadSegment := by
    generalize token.encodedProtectedHeader = encoded at hencoded ⊢
    rw [headerMember, payloadMember]
    -- the payload and the header are there or not
    cases hunprotected : token.unprotectedHeader with
    | none =>
      cases token.detached with
      | true =>
        refine ⟨obj [("protected", str encoded), ("signature", str signature)],
          strictObject_of_parseShape (by simp [keys]) ?_, rfl, rfl, rfl, rfl⟩
        refine parseShape_cons.mpr ⟨str encoded, _, if_pos hencoded, ?_, rfl⟩
        refine parseShape_cons.mpr ⟨undefined, _, rfl, ?_, rfl⟩
        refine parseShape_cons.mpr ⟨undefined, _, rfl, ?_, rfl⟩
        exact parseShape_cons.mpr ⟨str signature, [], if_pos hsigned.base64Url, rfl, rfl⟩
      | false =>
        refine ⟨obj [("protected", str encoded), ("payload", str token.attachedPayloadSegment),
          ("signature", str signature)], strictObject_of_parseShape (by simp [keys]) ?_,
            rfl, rfl, rfl, rfl⟩
        refine parseShape_cons.mpr ⟨str encoded, _, if_pos hencoded, ?_, rfl⟩
        refine parseShape_cons.mpr ⟨undefined, _, rfl, ?_, rfl⟩
        refine parseShape_cons.mpr ⟨str token.attachedPayloadSegment, _, rfl, ?_, rfl⟩
        exact parseShape_cons.mpr ⟨str signature, [], if_pos hsigned.base64Url, rfl, rfl⟩
    | some header =>
      obtain ⟨members, rfl, hrecord⟩ := record_eq_some (h.unprotected header hunprotected).2
      cases token.detached with
      | true =>
        refine ⟨obj [("protected", str encoded), ("header", obj members),
          ("signature", str signature)], strictObject_of_parseShape (by simp [keys]) ?_,
            rfl, rfl, rfl, rfl⟩
        refine parseShape_cons.mpr ⟨str encoded, _, if_pos hencoded, ?_, rfl⟩
        refine parseShape_cons.mpr ⟨obj members, _, hrecord, ?_, rfl⟩
        refine parseShape_cons.mpr ⟨undefined, _, rfl, ?_, rfl⟩
        exact parseShape_cons.mpr ⟨str signature, [], if_pos hsigned.base64Url, rfl, rfl⟩
      | false =>
        refine ⟨obj [("protected", str encoded), ("header", obj members),
          ("payload", str token.attachedPayloadSegment), ("signature", str signature)],
            strictObject_of_parseShape (by simp [keys]) ?_, rfl, rfl, rfl, rfl⟩
        refine parseShape_cons.mpr ⟨str encoded, _, if_pos hencoded, ?_, rfl⟩
        refine parseShape_cons.mpr ⟨obj members, _, hrecord, ?_, rfl⟩
        refine parseShape_cons.mpr ⟨str token.attachedPayloadSegment, _, rfl, ?_, rfl⟩
        exact parseShape_cons.mpr ⟨str signature, [], if_pos hsigned.base64Url, rfl, rfl⟩
  obtain ⟨data, hdata, hprotected, hdataSignature, hheader, hpayload⟩ := hdata
  refine verifiesAs_of_part h hsignature hsigned (partOf data (data.get "payload")) ?_ hfits
    fun verifier => ?_
  · refine ⟨hprotected, ?_, by rw [partOf, hdataSignature]; rfl, hheader⟩
    rw [partOf, hpayload]
    split_ifs
    · exact .inl rfl
    · rfl
  · have hmember : ¬hasMember "signatures" (obj ([("protected", str token.encodedProtectedHeader),
        ("signature", str signature)] ++ token.payloadMember ++ token.headerMember)) = true := by
      rw [hasMember_signatures, payloadMember, headerMember]
      cases token.detached <;> cases token.unprotectedHeader <;> simp [keys]
    rw [verify_obj, if_neg hmember, verifyFlattened, flattenedPart, hdata]

end Token

end IdentityCommon.Jades
