import IdentityCommon.SdJwt.Instance
import IdentityCommon.SdJwt.Unpack

/-!
# What the key binding covers

An SD-JWT is encoded to the text that it was decoded from, so that the hash in a key binding JWT is
one of the text up to its last separator.

## Main definitions

- `throughLast` — a text up to its last separator, which is included

## Main results

- `SdJwt.encode_of_fromEncode` — encoding undoes decoding
- `keyBinding` — what the hash in the key binding JWT covers, for a verifier and for a holder
-/

set_option linter.dupNamespace false

namespace IdentityCommon.SdJwt

open Ecma Value AssocList IdentityCommon.Except Common

/-- The text up to and including its last separator. -/
def throughLast (s : String) : String :=
  String.ofList (s.toList.reverse.dropWhile (· ≠ SD_SEPARATOR)).reverse

/-- The text after its last separator. -/
def afterLast (s : String) : String :=
  String.ofList (s.toList.reverse.takeWhile (· ≠ SD_SEPARATOR)).reverse

theorem join_toList (parts : List String) (sep : Char) :
    (join parts sep).toList = [sep].intercalate (parts.map String.toList) := String.toList_ofList

theorem intercalate_concat {sep : Char} {parts : List (List Char)} (h : parts ≠ [])
    (last : List Char) :
    [sep].intercalate (parts ++ [last]) = [sep].intercalate parts ++ sep :: last := by
  induction parts with
  | nil => exact absurd rfl h
  | cons part parts ih =>
    cases parts with
    | nil => rw [List.singleton_append, List.intercalate_cons_cons, List.intercalate_singleton,
        List.intercalate_singleton, List.append_assoc, List.singleton_append]
    | cons part' parts =>
      rw [List.cons_append, List.cons_append, List.intercalate_cons_cons, ← List.cons_append,
        ih (List.cons_ne_nil _ _), List.intercalate_cons_cons]
      simp

/-- The parts before the last one are the text up to the last separator. -/
theorem throughLast_join {parts : List String} (h : parts ≠ []) {last : String}
    (hlast : SD_SEPARATOR ∉ last.toList) :
    throughLast (join (parts ++ [last]) SD_SEPARATOR) = join (parts ++ [""]) SD_SEPARATOR := by
  have hmap : parts.map String.toList ≠ [] := fun hnil => h (List.map_eq_nil_iff.mp hnil)
  rw [throughLast, join_toList, join, List.map_append, List.map_append, List.map_singleton,
    List.map_singleton, intercalate_concat hmap, intercalate_concat hmap, List.reverse_append,
    List.reverse_cons, List.append_assoc, List.dropWhile_append_of_pos, List.singleton_append,
    List.dropWhile_cons_of_neg (by simp), List.reverse_cons, List.reverse_reverse]
  · simp
  · intro c hc
    have hne : c ≠ SD_SEPARATOR := fun heq => hlast (heq ▸ List.mem_reverse.mp hc)
    simpa using hne

theorem afterLast_join {parts : List String} (h : parts ≠ []) {last : String}
    (hlast : SD_SEPARATOR ∉ last.toList) :
    afterLast (join (parts ++ [last]) SD_SEPARATOR) = last := by
  have hmap : parts.map String.toList ≠ [] := fun hnil => h (List.map_eq_nil_iff.mp hnil)
  rw [afterLast, join_toList, List.map_append, List.map_singleton, intercalate_concat hmap,
    List.reverse_append, List.reverse_cons, List.append_assoc, List.takeWhile_append_of_pos,
    List.singleton_append, List.takeWhile_cons_of_neg (by simp), List.append_nil,
    List.reverse_reverse, String.ofList_toList]
  intro c hc
  have hne : c ≠ SD_SEPARATOR := fun heq => hlast (heq ▸ List.mem_reverse.mp hc)
  simpa using hne

/-- Joining some of the parts first makes no difference. -/
theorem join_join (first last : String) {parts : List String} (h : parts ≠ []) (sep : Char) :
    join [first, join parts sep, last] sep = join (first :: parts ++ [last]) sep := by
  have hmap : parts.map String.toList ≠ [] := fun hnil => h (List.map_eq_nil_iff.mp hnil)
  have hne : parts.map String.toList ++ [last.toList] ≠ [] := by simp
  apply String.ext
  rw [join_toList, join_toList, List.map_cons, List.map_cons, List.map_singleton, join_toList,
    List.cons_append, List.map_cons, List.map_append, List.map_singleton,
    List.intercalate_cons_of_ne_nil hne, intercalate_concat hmap, List.intercalate_cons_cons,
    List.intercalate_cons_cons, List.intercalate_singleton]
  simp

/-! ## Decoded parts -/

theorem nonEmpty_eq_some {s : Option String} {t : String} :
    nonEmpty s = some t ↔ s = some t ∧ t ≠ "" := by
  rw [nonEmpty, Option.filter_eq_some_iff, decide_eq_true_eq]

/-- A JWT keeps the text that it was decoded from. -/
theorem fromEncode_encoded {encoded : String} {jwt : Jwt} (h : Jwt.fromEncode encoded = .ok jwt) :
    jwt.encodeJwt = .ok (encoded, jwt) := by
  obtain ⟨⟨header, payload, signature⟩, hdecode, hret⟩ := bind_eq_ok.mp h
  cases hret
  have hne : encoded ≠ "" := by
    rintro rfl
    cases hdecode
  have hsome : nonEmpty (some encoded) = some encoded := nonEmpty_eq_some.mpr ⟨rfl, hne⟩
  simp only [Jwt.encodeJwt, hsome]

theorem liftError_eq_ok {α : Type} {x : Except SdJwtError α} {a : α} :
    liftError x = .ok a ↔ x = .ok a := by
  cases x with
  | error e => exact ⟨nofun, nofun⟩
  | ok b => exact ⟨fun h => congrArg _ (Except.ok.inj h), fun h => congrArg _ (Except.ok.inj h)⟩

/-- A disclosure stores the digest and the encoded form that it is made with. -/
theorem fromArray_meta {data : Value} {digest encoded : Option String} {d : Disclosure}
    (h : Disclosure.fromArray data digest encoded = .ok d) :
    d._digest = digest ∧ d._encoded = encoded := by
  unfold Disclosure.fromArray at h
  split at h
  case h_1 salt value =>
    split at h
    case h_1 =>
      cases h
      exact ⟨rfl, rfl⟩
    case h_2 => cases h
  case h_2 salt key value =>
    split at h
    case h_1 =>
      split at h
      case isTrue => cases h
      case isFalse =>
        cases h
        exact ⟨rfl, rfl⟩
    case h_2 => cases h
    case h_3 => cases h
  case h_3 => cases h

/-- A decoded disclosure is encoded to the text that it was decoded from. -/
theorem encode_of_fromEncode {s : String} {hash : HasherAndAlg} {d : Disclosure}
    (h : Disclosure.fromEncode s hash = .ok d) : d.encode = s := by
  have hne : s ≠ "" := by
    rintro rfl
    cases h
  unfold Disclosure.fromEncode at h
  split at h
  case h_1 item hitem =>
    have hsome : (some s).filter (· ≠ "") = some s := nonEmpty_eq_some.mpr ⟨rfl, hne⟩
    rw [Disclosure.encode, (fromArray_meta h).2, hsome, Option.getD_some]
  case h_2 => cases h

/-- The parts that an SD-JWT is decoded from. -/
structure DecodedFrom (encodedSdJwt : String) (hasher : Hasher) (x : SdJwt) where
  encodedJwt : String
  encodedDisclosures : List String
  encodedKbJwt : String
  split_eq : split encodedSdJwt SD_SEPARATOR = encodedJwt :: (encodedDisclosures ++ [encodedKbJwt])
  jwt : Jwt
  jwt_eq : x.jwt = some jwt
  jwt_of : Jwt.fromEncode encodedJwt = .ok jwt
  payload : Value
  payload_eq : Jwt.part jwt.payload = some payload
  alg : String
  members : List (String × Value)
  alg_eq : getSdAlgAndPayload (ownMembers payload) = .ok (alg, members)
  disclosures : List Disclosure
  disclosures_eq : x.disclosures = some disclosures
  disclosures_of : List.Forall₂
    (fun encoded d => Disclosure.fromEncode encoded { hasher, alg } = .ok d)
    encodedDisclosures disclosures
  kbJwt_of : (encodedKbJwt = "" ∧ x.kbJwt = none) ∨ ∃ kb, Jwt.fromEncode encodedKbJwt = .ok kb ∧
    x.kbJwt = some kb

theorem decodeKbJwt_eq_ok {encoded : String} {kbJwt : Option Jwt} :
    SdJwt.decodeKbJwt encoded = .ok kbJwt ↔
      (encoded = "" ∧ kbJwt = none) ∨ ∃ kb, Jwt.fromEncode encoded = .ok kb ∧ kbJwt = some kb := by
  unfold SdJwt.decodeKbJwt
  split
  case isTrue h =>
    refine ⟨fun hok => Or.inl ⟨h, (Except.ok.inj hok).symm⟩, fun hor => ?_⟩
    obtain ⟨-, hnone⟩ | ⟨kb, hkb, -⟩ := hor
    · rw [hnone]
    · rw [h] at hkb
      cases hkb
  case isFalse h =>
    rw [map_eq_ok]
    exact ⟨fun ⟨kb, hkb, hsome⟩ => Or.inr ⟨kb, hkb, hsome.symm⟩,
      fun hor => hor.elim (fun hempty => absurd hempty.1 h) fun ⟨kb, hkb, hsome⟩ =>
        ⟨kb, hkb, hsome.symm⟩⟩

theorem decodedFrom {s : String} {hasher : Hasher} {x : SdJwt}
    (h : SdJwt.fromEncode s hasher = .ok x) :
    Nonempty (DecodedFrom s hasher x) := by
  unfold SdJwt.fromEncode SdJwt.decodeSdJwt at h
  split at h
  case h_2 => cases h
  case h_1 encodedJwt encodedDisclosure encodedDisclosures hsplit =>
    obtain ⟨jwt, hjwt, hx⟩ := bind_eq_ok.mp h
    split at hx
    case h_1 => cases hx
    case h_2 payload hpayload =>
      dsimp only at hx
      obtain ⟨kbJwt, hkb, hx⟩ := bind_eq_ok.mp hx
      obtain ⟨⟨alg, members⟩, halg, hx⟩ := bind_eq_ok.mp hx
      obtain ⟨disclosures, hds, hx⟩ := bind_eq_ok.mp hx
      cases hx
      have hlast : (encodedDisclosure :: encodedDisclosures).dropLast ++
          [(encodedDisclosure :: encodedDisclosures).getLastD ""] = encodedDisclosure ::
          encodedDisclosures := by
        rw [List.getLastD_cons, ← List.getLast_eq_getLastD]
        exact List.dropLast_append_getLast (List.cons_ne_nil _ _)
      refine ⟨{
        encodedJwt, encodedDisclosures := (encodedDisclosure :: encodedDisclosures).dropLast
        encodedKbJwt := (encodedDisclosure :: encodedDisclosures).getLastD ""
        split_eq := by rw [hsplit, hlast]
        jwt, jwt_eq := rfl, jwt_of := hjwt, payload, payload_eq := hpayload, alg, members
        alg_eq := halg, disclosures, disclosures_eq := rfl
        disclosures_of := (mapM_eq_ok.mp hds).imp fun _ _ => liftError_eq_ok.mp
        kbJwt_of := decodeKbJwt_eq_ok.mp hkb }⟩

/-! ## Encoding -/

/-- The compact form, with the encoded key binding JWT or nothing after the last separator. -/
theorem encodeSdJwt_eq {x : SdJwt} {jwt jwt' : Jwt} {encodedJwt last : String}
    {disclosures : List Disclosure} (hjwt : x.jwt = some jwt)
    (hencode : jwt.encodeJwt = .ok (encodedJwt, jwt')) (hds : x.disclosures = some disclosures)
    (hkb : (last = "" ∧ x.kbJwt = none) ∨ ∃ kb kb', x.kbJwt = some kb ∧
      kb.encodeJwt = .ok (last, kb')) :
    x.encodeSdJwt = .ok (join
      (encodedJwt :: (disclosures.map Disclosure.encode ++ [last])) SD_SEPARATOR) := by
  unfold SdJwt.encodeSdJwt
  rw [hjwt, hds]
  dsimp only
  rw [hencode, ok_bind]
  obtain ⟨rfl, hkb⟩ | ⟨kb, kb', hkb, hkbEncode⟩ := hkb
  · rw [hkb]
    cases disclosures with
    | nil => rfl
    | cons d disclosures => exact congrArg Except.ok (join_join _ _ (by simp) _)
  · rw [hkb]
    dsimp only
    rw [hkbEncode]
    cases disclosures with
    | nil => rfl
    | cons d disclosures => exact congrArg Except.ok (join_join _ _ (by simp) _)

theorem map_encode {hash : HasherAndAlg} {encoded : List String} {disclosures : List Disclosure}
    (h : List.Forall₂ (fun encoded d => Disclosure.fromEncode encoded hash = .ok d)
      encoded disclosures) :
    disclosures.map Disclosure.encode = encoded := by
  induction h with
  | nil => rfl
  | cons hd _ ih => rw [List.map_cons, encode_of_fromEncode hd, ih]

section Decoded

variable {s : String} {hasher : Hasher} {x : SdJwt} (d : DecodedFrom s hasher x)
include d

theorem DecodedFrom.join_eq :
    join (d.encodedJwt :: (d.encodedDisclosures ++ [d.encodedKbJwt])) SD_SEPARATOR = s := by
  rw [← d.split_eq, join_split]

/-- Encoding undoes decoding. -/
theorem DecodedFrom.encodeSdJwt : x.encodeSdJwt = .ok s := by
  rw [encodeSdJwt_eq d.jwt_eq (fromEncode_encoded d.jwt_of) d.disclosures_eq
    (d.kbJwt_of.imp_right ?_), map_encode d.disclosures_of, d.join_eq]
  rintro ⟨kb, hkb, hx⟩
  exact ⟨kb, kb, hx, fromEncode_encoded hkb⟩

/-- Without the key binding JWT, an SD-JWT is encoded to the text up to the last separator. -/
theorem DecodedFrom.encode_withoutKb :
    (SdJwtInstance.withoutKb x).encodeSdJwt = .ok (throughLast s) := by
  have hlast : SD_SEPARATOR ∉ d.encodedKbJwt.toList :=
    not_mem_of_mem_split (s := s) (by rw [d.split_eq]; simp)
  rw [encodeSdJwt_eq (x := SdJwtInstance.withoutKb x) d.jwt_eq
    (fromEncode_encoded d.jwt_of) d.disclosures_eq
    (Or.inl ⟨rfl, rfl⟩), map_encode d.disclosures_of, ← List.cons_append,
    ← throughLast_join (List.cons_ne_nil _ _) hlast]
  exact congrArg (fun text => Except.ok (throughLast text)) d.join_eq

theorem DecodedFrom.calculateSdHash (text : String) :
    SdJwtInstance.calculateSdHash text x hasher =
      .ok (uint8ArrayToBase64Url (hasher text d.alg)) := by
  have hpart : (x.jwt.bind fun jwt => Jwt.part jwt.payload) = some d.payload := by
    rw [d.jwt_eq, Option.bind_some, d.payload_eq]
  unfold SdJwtInstance.calculateSdHash
  rw [hpart]
  dsimp only
  rw [d.alg_eq]
  rfl

end Decoded

/-! ## Verification -/

theorem requireHasher_eq_ok {config : SdJwtConfig} {hasher : Hasher} :
    SdJwtInstance.requireHasher config = .ok hasher ↔ config.hasher = some hasher := by
  unfold SdJwtInstance.requireHasher
  cases config.hasher with
  | none => exact ⟨nofun, nofun⟩
  | some hasher' => exact ⟨fun h => congrArg _ (Except.ok.inj h),
      fun h => congrArg _ (Option.some.inj h)⟩

/-- What a verified key binding is known to have. -/
theorem verifyKeyBinding_eq_ok {config : SdJwtConfig} {now : Number} {x : SdJwt} {payload : Value}
    {hasher : Hasher} {options : VerifierOptions} {nonce : String} {kb : Option (Value × Value)}
    (hnonce : nonEmpty options.keyBindingNonce = some nonce)
    (h : SdJwtInstance.verifyKeyBinding config now x payload hasher options = .ok kb) :
    ∃ kb' hash, kb = some kb' ∧ SdJwtInstance.sdHash x hasher = .ok hash ∧
    kb'.1.get "sd_hash" = .str hash := by
  unfold SdJwtInstance.verifyKeyBinding at h
  rw [hnonce] at h
  dsimp only at h
  split at h
  case h_1 => cases h
  case h_2 kbJwt hkbJwt =>
    split at h
    case h_1 => cases h
    case h_2 kbVerifier hverifier =>
      obtain ⟨kb', -, hsdHash⟩ := bind_eq_ok.mp h
      obtain ⟨hash, hhash, hget⟩ := bind_eq_ok.mp hsdHash
      split at hget
      case h_1 sdHashFromKb hfrom =>
        split at hget
        case isTrue heq =>
          cases hget
          exact ⟨kb', hash, rfl, hhash, heq ▸ hfrom⟩
        case isFalse => cases hget
      case h_2 => cases hget

theorem verifyWith_eq_ok {config : SdJwtConfig} {now : Number}
    {validate : String → VerifierOptions → Except UnpackError (Value × Option Value)}
    {s : String} {options : VerifierOptions} {r : Verified} :
    SdJwtInstance.verifyWith config now validate s options = .ok r ↔
      ∃ hasher x, config.hasher = some hasher ∧ SdJwt.fromEncode s hasher = .ok x ∧
        (x.jwt.bind fun jwt => Jwt.part jwt.payload).isSome ∧
        validate s options = .ok (r.payload, r.header) ∧
        SdJwtInstance.requireClaims x hasher options = .ok () ∧
        SdJwtInstance.verifyKeyBinding config now x r.payload hasher options = .ok r.kb := by
  unfold SdJwtInstance.verifyWith
  constructor
  · intro h
    obtain ⟨hasher, hhasher, h⟩ := bind_eq_ok.mp h
    obtain ⟨x, hx, h⟩ := bind_eq_ok.mp h
    split at h
    case h_1 => cases h
    case h_2 payload hpayload =>
      obtain ⟨⟨claims, header⟩, hvalidate, h⟩ := bind_eq_ok.mp h
      obtain ⟨⟨⟩, hrequire, h⟩ := bind_eq_ok.mp h
      obtain ⟨kb, hkb, h⟩ := bind_eq_ok.mp h
      cases h
      exact ⟨hasher, x, requireHasher_eq_ok.mp hhasher, hx, by rw [hpayload]; rfl,
        hvalidate, hrequire, hkb⟩
  · rintro ⟨hasher, x, hhasher, hx, hpayload, hvalidate, hrequire, hkb⟩
    obtain ⟨payload, hpayload⟩ := Option.isSome_iff_exists.mp hpayload
    rw [requireHasher_eq_ok.mpr hhasher, ok_bind, hx, ok_bind, hpayload]
    dsimp only
    rw [hvalidate, ok_bind, hrequire, ok_bind, hkb]
    rfl

theorem DecodedFrom.sdHash {s : String} {hasher : Hasher} {x : SdJwt} (d : DecodedFrom s hasher x) :
    SdJwtInstance.sdHash x hasher = .ok (uint8ArrayToBase64Url (hasher (throughLast s) d.alg)) := by
  unfold SdJwtInstance.sdHash
  rw [d.encode_withoutKb, ok_bind, d.calculateSdHash]

/-! ## Presentation -/

/-- The compact form of a JWT. -/
def compactJwt (header payload : Value) (signature : String) : String :=
  encodeValue header ++ "." ++ encodeValue payload ++ "." ++ signature

theorem compactJwt_eq_join (header payload : Value) (signature : String) :
    compactJwt header payload signature =
      join [encodeValue header, encodeValue payload, signature] '.' := by
  apply String.ext
  rw [join_toList]
  simp [compactJwt, List.intercalate_cons_cons]

theorem not_mem_encodeValue {c : Char} (h : c ∉ Base64url.chars) (v : Value) :
    c ∉ (encodeValue v).toList := by
  intro hc
  rw [encodeValue, base64urlEncode, String.toList_ofList] at hc
  exact h (Base64url.mem_chars_of_encode _ _ hc)

theorem separator_not_mem_compactJwt (header payload : Value) {signature : String}
    (h : SD_SEPARATOR ∉ signature.toList) :
    SD_SEPARATOR ∉ (compactJwt header payload signature).toList := by
  have hencode : ∀ v, SD_SEPARATOR ∉ (encodeValue v).toList := not_mem_encodeValue (by decide)
  have hdot : SD_SEPARATOR ∉ (".".toList) := by decide
  simp only [compactJwt, String.toList_append, List.mem_append, not_or]
  exact ⟨⟨⟨⟨hencode header, hdot⟩, hencode payload⟩, hdot⟩, h⟩

theorem base64urlDecodeJson_encodeValue {v : Value} (h : v.IsJson) :
    base64urlDecodeJson (encodeValue v) = .ok v := by
  obtain ⟨text, htext, -⟩ := Json.exists_reads h
  rw [encodeValue, htext, Option.getD_some, base64urlDecodeJson_encode h htext]

/-- The compact form of a JWT is decoded to its parts. -/
theorem decodeJwt_compactJwt {header payload : Value} {signature : String} (hheader : header.IsJson)
    (hpayload : payload.IsJson) (hsignature : '.' ∉ signature.toList) :
    decodeJwt (compactJwt header payload signature) = .ok (header, payload, signature) := by
  have hsplit : split (compactJwt header payload signature) '.' =
      [encodeValue header, encodeValue payload, signature] := by
    rw [compactJwt_eq_join, split_join (List.cons_ne_nil _ _)]
    simp only [List.forall_mem_cons]
    exact ⟨not_mem_encodeValue (by decide) _, not_mem_encodeValue (by decide) _, hsignature, nofun⟩
  rw [decodeJwt, hsplit]
  dsimp only
  rw [base64urlDecodeJson_encodeValue hheader, base64urlDecodeJson_encodeValue hpayload]

/-- A JWT that is decoded from its compact form. -/
def Jwt.decoded (header payload : Value) (signature : String) : Jwt :=
  { header, payload, signature, encoded := compactJwt header payload signature }

theorem Jwt.fromEncode_compactJwt {header payload : Value} {signature : String}
    (hheader : header.IsJson) (hpayload : payload.IsJson) (hsignature : '.' ∉ signature.toList) :
    Jwt.fromEncode (compactJwt header payload signature) =
      .ok (Jwt.decoded header payload signature) := by
  rw [Jwt.fromEncode, decodeJwt_compactJwt hheader hpayload hsignature]
  rfl

theorem nonEmpty_compactJwt (header payload : Value) (signature : String) :
    nonEmpty (some (compactJwt header payload signature)) =
      some (compactJwt header payload signature) := by
  refine nonEmpty_eq_some.mpr ⟨rfl, fun hempty => ?_⟩
  have hdot : '.' ∈ (compactJwt header payload signature).toList := by simp [compactJwt]
  rw [hempty] at hdot
  cases hdot

theorem split_compactJwt (header payload : Value) {signature : String}
    (hsignature : '.' ∉ signature.toList) :
    split (compactJwt header payload signature) '.' =
      [encodeValue header, encodeValue payload, signature] := by
  rw [compactJwt_eq_join, split_join (List.cons_ne_nil _ _)]
  simp only [List.forall_mem_cons]
  exact ⟨not_mem_encodeValue (by decide) _, not_mem_encodeValue (by decide) _, hsignature, nofun⟩

theorem Jwt.encodeJwt_decoded {header payload : Value} {signature : String} :
    (decoded header payload signature).encodeJwt =
      .ok (compactJwt header payload signature, decoded header payload signature) := by
  unfold encodeJwt
  dsimp only [decoded]
  rw [nonEmpty_compactJwt]

theorem Jwt.getUnsignedToken_decoded {header payload : Value} {signature : String}
    (hsignature : '.' ∉ signature.toList) (hheader : part (some header) = some header)
    (hpayload : part (some payload) = some payload) :
    (decoded header payload signature).getUnsignedToken =
      .ok (join [encodeValue header, encodeValue payload] '.') := by
  unfold getUnsignedToken
  dsimp only [decoded]
  rw [hheader, hpayload]
  dsimp only
  rw [nonEmpty_compactJwt]
  dsimp only
  rw [split_compactJwt _ _ hsignature]
  rfl

/-- A verification that skips the claims asks the verifier only. -/
theorem Jwt.verify_skipped {jwt : Jwt} {verifier : Verifier}
    {options : VerifierOptions} {now : Number} {alg signature data : String}
    (halg : jwt.alg = some alg) (hallowed : options.allowedIssuerAlgorithms = none)
    (hcrit : hasCrit jwt.header = false) (hskip : options.skipJwtClaimValidation = true)
    (hsignature : nonEmpty jwt.signature = some signature) (hdata : jwt.getUnsignedToken = .ok data)
    (hverifier : verifier data signature options = .ok true) :
    jwt.verify verifier options now = .ok (jwt.payload, jwt.header) := by
  rw [verify, halg]
  dsimp only
  rw [hallowed, Option.any_none, if_neg (by decide), hcrit, if_neg (by decide), hskip, if_pos rfl,
    ok_bind, hsignature]
  dsimp only
  rw [hdata, ok_bind, hverifier]
  rfl

/-- The parts that are joined to an SD-JWT are decoded. -/
theorem fromEncode_join {hasher : Hasher} {encodedJwt last : String} {encoded : List String}
    {jwt : Jwt} {payload : Value} {alg : String} {members : List (String × Value)}
    {disclosures : List Disclosure} {kbJwt : Option Jwt}
    (hseparator : ∀ part ∈ encodedJwt :: (encoded ++ [last]), SD_SEPARATOR ∉ part.toList)
    (hjwt : Jwt.fromEncode encodedJwt = .ok jwt) (hpayload : Jwt.part jwt.payload = some payload)
    (halg : getSdAlgAndPayload (ownMembers payload) = .ok (alg, members))
    (hdisclosures : List.Forall₂
      (fun encoded d => Disclosure.fromEncode encoded { hasher, alg } = .ok d) encoded disclosures)
    (hkb : SdJwt.decodeKbJwt last = .ok kbJwt) :
    SdJwt.fromEncode (join (encodedJwt :: (encoded ++ [last])) SD_SEPARATOR) hasher =
      .ok { jwt, disclosures, kbJwt } := by
  have hmap : encoded.mapM (fun s => liftError (Disclosure.fromEncode s { hasher, alg })) =
      .ok disclosures :=
    mapM_eq_ok.mpr (hdisclosures.imp fun _ _ h => liftError_eq_ok.mpr h)
  obtain ⟨first, rest, hrest⟩ : ∃ first rest, encoded ++ [last] = first :: rest :=
    List.exists_cons_of_ne_nil (by simp)
  have hlast : (first :: rest).getLastD "" = last := by rw [← hrest]; simp
  have hinit : (first :: rest).dropLast = encoded := by rw [← hrest]; simp
  rw [SdJwt.fromEncode, SdJwt.decodeSdJwt, split_join (List.cons_ne_nil _ _) hseparator, hrest]
  dsimp only
  rw [hjwt, ok_bind, hpayload]
  dsimp only
  rw [hlast, hkb, ok_bind, halg, ok_bind]
  dsimp only
  rw [hinit, hmap, ok_bind]

/-- A JWT that is signed stores its compact form. -/
theorem sign_eq_ok {jwt signed : Jwt} {signer : Signer} (hencoded : jwt.encoded = none)
    (h : jwt.sign signer = .ok signed) :
    ∃ header payload data signature, Jwt.part jwt.header = some header ∧
    Jwt.part jwt.payload = some payload ∧
      signer data = .ok signature ∧
      signed.encodeJwt = .ok (compactJwt header payload signature, signed) := by
  unfold Jwt.sign at h
  split at h
  case h_1 => cases h
  case h_2 header hheader =>
    split at h
    case h_1 => cases h
    case h_2 =>
      obtain ⟨data, -, hsigner⟩ := bind_eq_ok.mp h
      obtain ⟨signature, hsignature, hencode⟩ := bind_eq_ok.mp hsigner
      obtain ⟨⟨compact, stored⟩, hcompact, hsigned⟩ := bind_eq_ok.mp hencode
      cases hsigned
      unfold Jwt.encodeJwt at hcompact
      simp only [hencoded, hheader] at hcompact
      rw [nonEmpty, Option.filter_none] at hcompact
      dsimp only at hcompact
      split at hcompact
      case h_1 header' payload signature' hheader' hpayload hsignature' =>
        cases hheader'
        cases hcompact
        obtain ⟨heq, -⟩ := nonEmpty_eq_some.mp hsignature'
        cases heq
        have hne : compactJwt header payload signature ≠ "" := by
          intro hempty
          have hdot : '.' ∈ (compactJwt header payload signature).toList := by simp [compactJwt]
          rw [hempty] at hdot
          cases hdot
        refine ⟨header, payload, data, signature, hheader, hpayload, hsignature, ?_⟩
        have hsome : nonEmpty
            (some (encodeValue header ++ "." ++ encodeValue payload ++ "." ++ signature)) =
            some (compactJwt header payload signature) := nonEmpty_eq_some.mpr ⟨rfl, hne⟩
        unfold Jwt.encodeJwt
        dsimp only
        rw [hsome]
      case h_2 => cases hcompact

theorem createKbJwt_eq_ok {config : SdJwtConfig} {payload : List (String × Value)}
    {sdHash : String} {kbJwt : Jwt}
    (h : SdJwtInstance.createKbJwt config payload sdHash = .ok kbJwt) :
    ∃ header signer data signature, config.kbSigner = some signer ∧ signer data = .ok signature ∧
      kbJwt.encodeJwt = .ok
        (compactJwt header (.obj (insert "sd_hash" (.str sdHash) payload)) signature, kbJwt) := by
  unfold SdJwtInstance.createKbJwt at h
  split at h
  case h_1 => cases h
  case h_2 => cases h
  case h_3 signer alg hsigner halg =>
    obtain ⟨header, payload', data, signature, hheader, hpayload, hsignature, hencode⟩ :=
      sign_eq_ok rfl h
    cases hpayload
    exact ⟨header, signer, data, signature, hsigner, hsignature, hencode⟩

/-- The disclosures that are presented do not depend on the key binding JWT. -/
theorem getPresentDisclosures_kbJwt (x : SdJwt) (kbJwt : Option Jwt) (frame : Option Value)
    (hasher : Hasher) :
    { x with kbJwt : SdJwt }.getPresentDisclosures frame hasher =
      x.getPresentDisclosures frame hasher := rfl

theorem present_eq_ok {x : SdJwt} {frame : Option Value} {hasher : Hasher} {out : String}
    (h : x.present frame hasher = .ok out) :
    ∃ (selected : List (Option Disclosure)) (disclosures : List Disclosure),
      x.getPresentDisclosures frame hasher = .ok selected ∧ selected.mapM id = some disclosures ∧
        { x with disclosures : SdJwt }.encodeSdJwt = .ok out := by
  unfold SdJwt.present at h
  obtain ⟨selected, hselected, hencode⟩ := bind_eq_ok.mp h
  split at hencode
  case h_1 => cases hencode
  case h_2 disclosures hdisclosures => exact ⟨selected, disclosures, hselected,
    hdisclosures, hencode⟩

/-- The presentation with a key binding JWT is the one without, followed by the key binding JWT. -/
theorem present_kb {config : SdJwtConfig} {s out : String} {frame : Option Value}
    {payload : List (String × Value)}
    (h : SdJwtInstance.present config s frame (some payload) = .ok out) :
    ∃ hasher x first encodedDisclosures sdHash kbJwt, config.hasher = some hasher ∧
      SdJwt.fromEncode s hasher = .ok x ∧
      SdJwtInstance.calculateSdHash (join (first :: (encodedDisclosures ++ [""])) SD_SEPARATOR) x
        hasher = .ok sdHash ∧
      SdJwtInstance.createKbJwt config payload sdHash = .ok kbJwt ∧
      ∀ kbCompact, kbJwt.encodeJwt = .ok (kbCompact, kbJwt) →
        out = join (first :: (encodedDisclosures ++ [kbCompact])) SD_SEPARATOR := by
  unfold SdJwtInstance.present at h
  obtain ⟨hasher, hhasher, hdecode⟩ := bind_eq_ok.mp h
  obtain ⟨x, hx, hpresent⟩ := bind_eq_ok.mp hdecode
  obtain ⟨d⟩ := decodedFrom hx
  split at hpresent
  case isTrue => cases hpresent
  case isFalse hkb =>
    have hnone : x.kbJwt = none := Option.not_isSome_iff_eq_none.mp hkb
    split at hpresent
    case h_1 => cases hpresent
    case h_2 =>
      obtain ⟨withoutKb, hwithoutKb, hhash⟩ := bind_eq_ok.mp hpresent
      obtain ⟨sdHash, hsdHash, hcreate⟩ := bind_eq_ok.mp hhash
      obtain ⟨kbJwt, hkbJwt, hout⟩ := bind_eq_ok.mp hcreate
      obtain ⟨selected, disclosures, hselected, hdisclosures, hfirst⟩ := present_eq_ok hwithoutKb
      obtain ⟨selected', disclosures', hselected', hdisclosures', hlast⟩ := present_eq_ok hout
      rw [getPresentDisclosures_kbJwt, hselected] at hselected'
      cases hselected'
      rw [hdisclosures] at hdisclosures'
      cases hdisclosures'
      have hjwt := fromEncode_encoded d.jwt_of
      rw [encodeSdJwt_eq (x := { x with disclosures }) d.jwt_eq hjwt rfl
        (Or.inl ⟨rfl, hnone⟩)] at hfirst
      cases hfirst
      refine ⟨hasher, x, d.encodedJwt, disclosures.map Disclosure.encode, sdHash, kbJwt,
        requireHasher_eq_ok.mp hhasher, hx, hsdHash, hkbJwt, fun kbCompact hcompact => ?_⟩
      rw [encodeSdJwt_eq (x := { x with disclosures, kbJwt }) d.jwt_eq hjwt rfl
        (Or.inr ⟨kbJwt, kbJwt, rfl, hcompact⟩)] at hlast
      exact (Except.ok.inj hlast).symm

/-! ## What the hash covers -/

/-- The hash algorithm of an SD-JWT. -/
def HasAlg (x : SdJwt) (alg : String) : Prop :=
  ∃ payload members, (x.jwt.bind fun jwt => Jwt.part jwt.payload) = some payload ∧
    getSdAlgAndPayload (ownMembers payload) = .ok (alg, members)

theorem DecodedFrom.hasAlg {s : String} {hasher : Hasher} {x : SdJwt} (d : DecodedFrom s hasher x) :
    HasAlg x d.alg :=
  ⟨d.payload, d.members, by rw [d.jwt_eq, Option.bind_some, d.payload_eq], d.alg_eq⟩

/-- An SD-JWT is encoded to the text it was decoded from. With a nonce for the key binding, what is
verified has the hash of the text up to its last separator in the key binding JWT, and so has what a
holder presents. -/
theorem keyBinding (config : SdJwtConfig) (hasher : Hasher) (hhasher : config.hasher = some hasher)
    (hsigner : ∀ signer data signature, config.kbSigner = some signer →
      signer data = .ok signature →
      SD_SEPARATOR ∉ signature.toList) (now : Number) :
    (∀ s x, SdJwt.fromEncode s hasher = .ok x → x.encodeSdJwt = .ok s) ∧
    (∀ s options r nonce, nonEmpty options.keyBindingNonce = some nonce →
      SdJwtInstance.verify config now s options = .ok r →
      ∃ x alg kb, SdJwt.fromEncode s hasher = .ok x ∧ HasAlg x alg ∧ r.kb = some kb ∧
        kb.1.get "sd_hash" = .str (uint8ArrayToBase64Url (hasher (throughLast s) alg))) ∧
    ∀ s frame payload out, SdJwtInstance.present config s frame (some payload) = .ok out →
      ∃ x alg header kbPayload signature, SdJwt.fromEncode s hasher = .ok x ∧ HasAlg x alg ∧
        afterLast out = compactJwt header kbPayload signature ∧
        kbPayload.get "sd_hash" = .str (uint8ArrayToBase64Url (hasher (throughLast out) alg)) := by
  refine ⟨?_, ?_, ?_⟩
  · intro s x hx
    obtain ⟨d⟩ := decodedFrom hx
    exact d.encodeSdJwt
  · intro s options r nonce hnonce hverify
    obtain ⟨hasher', x, hhasher', hx, -, -, -, hkb⟩ := verifyWith_eq_ok.mp hverify
    cases hhasher.symm.trans hhasher'
    obtain ⟨d⟩ := decodedFrom hx
    obtain ⟨kb, hash, hsome, hhash, hget⟩ := verifyKeyBinding_eq_ok hnonce hkb
    rw [d.sdHash] at hhash
    cases hhash
    exact ⟨x, d.alg, kb, hx, d.hasAlg, hsome, hget⟩
  · intro s frame payload out hpresent
    obtain ⟨hasher', x, first, encoded, sdHash, kbJwt, hhasher', hx, hsdHash, hcreate, hout⟩ :=
      present_kb hpresent
    cases hhasher.symm.trans hhasher'
    obtain ⟨d⟩ := decodedFrom hx
    obtain ⟨header, signer, data, signature, hkbSigner, hsignature, hencode⟩ :=
      createKbJwt_eq_ok hcreate
    have hlast := separator_not_mem_compactJwt header
      (.obj (insert "sd_hash" (.str sdHash) payload))
      (hsigner signer data signature hkbSigner hsignature)
    rw [d.calculateSdHash] at hsdHash
    cases hsdHash
    rw [hout _ hencode, ← List.cons_append]
    refine ⟨x, d.alg, header, _, signature, hx, d.hasAlg,
      afterLast_join (List.cons_ne_nil _ _) hlast, ?_⟩
    rw [throughLast_join (List.cons_ne_nil _ _) hlast]
    exact get_obj_of_some (by rw [lookup_insert, if_pos rfl, List.cons_append])

/-- A hash that is a prefix. -/
abbrev prefixHash : Hasher :=
  fun data _ => Common.stringToBytes (String.ofList (data.toList.take 3))

/-- A holder and a verifier with a hash that is a prefix and with signatures that are all the
same. -/
def prefixHashConfig : SdJwtConfig where
  hasher := some fun data _ => Common.stringToBytes (String.ofList (data.toList.take 3))
  verifier := some fun _ _ _ => .ok true
  kbVerifier := some fun _ _ _ => .ok true
  kbSigner := some fun _ => .ok "c2ln"
  kbSignAlg := "ES256"

/-- A presentation with key binding. -/
def presentedWithKb : Except UnpackError String :=
  SdJwtInstance.present prefixHashConfig "eyJhbGciOiJFUzI1NiJ9.eyJpc3MiOiJhIn0.c2ln~" none
    (some [("iat", .num 0), ("aud", .str "a"), ("nonce", .str "n")])

/-- The issuer's JWT in `presentedWithKb`. -/
def issuerJwt : Jwt := Jwt.decoded (.obj [("alg", .str "ES256")]) (.obj [("iss", .str "a")]) "c2ln"

def issuerCompact : String :=
  compactJwt (.obj [("alg", .str "ES256")]) (.obj [("iss", .str "a")]) "c2ln"

def kbHeader : Value := .obj [("typ", .str KB_JWT_TYP), ("alg", .str "ES256")]

def kbPayload (sdHash : String) : Value :=
  .obj [("iat", .num 0), ("aud", .str "a"), ("nonce", .str "n"), ("sd_hash", .str sdHash)]

def kbSigned (sdHash : String) : Jwt := Jwt.decoded kbHeader (kbPayload sdHash) "c2ln"

/-- The SD-JWT of the issuer, and that of the holder. -/
def issuedSdJwt (kbJwt : Option Jwt) : SdJwt :=
  { jwt := issuerJwt, disclosures := some [], kbJwt := kbJwt }

def presentedText (sdHash : String) : String :=
  join [issuerCompact, compactJwt kbHeader (kbPayload sdHash) "c2ln"] SD_SEPARATOR

theorem issuerCompact_eq :
    "eyJhbGciOiJFUzI1NiJ9.eyJpc3MiOiJhIn0.c2ln~" = join [issuerCompact, ""] SD_SEPARATOR := by
  decide +kernel

theorem fromEncode_issuerCompact : Jwt.fromEncode issuerCompact = .ok issuerJwt :=
  Jwt.fromEncode_compactJwt (.of_isJson (by decide)) (.of_isJson (by decide)) (by decide)

theorem fromEncode_issued {last : String} {kbJwt : Option Jwt} (hlast : SD_SEPARATOR ∉ last.toList)
    (hkb : SdJwt.decodeKbJwt last = .ok kbJwt) :
    SdJwt.fromEncode (join [issuerCompact, last] SD_SEPARATOR) prefixHash =
      .ok (issuedSdJwt kbJwt) := by
  refine @fromEncode_join _ _ _ [] _ _ _ _ _ _ ?_ fromEncode_issuerCompact rfl rfl .nil hkb
  simp only [List.nil_append, List.forall_mem_cons]
  exact ⟨separator_not_mem_compactJwt _ _ (by decide), hlast, nofun⟩

theorem fromEncode_presentedText (sdHash : String) :
    SdJwt.fromEncode (presentedText sdHash) prefixHash =
      .ok (issuedSdJwt (some (kbSigned sdHash))) := by
  have hkbJwt : Jwt.fromEncode (compactJwt kbHeader (kbPayload sdHash) "c2ln") =
      .ok (kbSigned sdHash) :=
    Jwt.fromEncode_compactJwt (.of_isJson (by decide)) (.of_isJson rfl) (by decide)
  exact fromEncode_issued (separator_not_mem_compactJwt _ _ (by decide))
    (decodeKbJwt_eq_ok.mpr (Or.inr ⟨_, hkbJwt, rfl⟩))

theorem encodeSdJwt_issued {kbJwt : Option Jwt} {last : String}
    (hlast : (last = "" ∧ kbJwt = none) ∨ ∃ kb kb', kbJwt = some kb ∧
      kb.encodeJwt = .ok (last, kb')) :
    (issuedSdJwt kbJwt).encodeSdJwt = .ok (join [issuerCompact, last] SD_SEPARATOR) := by
  have hencode : issuerJwt.encodeJwt = .ok (issuerCompact, issuerJwt) := Jwt.encodeJwt_decoded
  exact @encodeSdJwt_eq (issuedSdJwt kbJwt) _ _ _ _ [] rfl hencode rfl hlast

theorem presentedWithKb_eq : presentedWithKb = .ok (presentedText (uint8ArrayToBase64Url
    (prefixHash (join [issuerCompact, ""] SD_SEPARATOR) "sha-256"))) := by
  have hhasher : SdJwtInstance.requireHasher prefixHashConfig = .ok prefixHash := rfl
  have hissued : SdJwt.fromEncode (join [issuerCompact, ""] SD_SEPARATOR) prefixHash =
      .ok (issuedSdJwt none) :=
    fromEncode_issued (by decide) rfl
  have hpart : ((issuedSdJwt none).jwt.bind fun jwt => Jwt.part jwt.payload) =
      some (.obj [("iss", .str "a")]) := rfl
  have hpresent : (issuedSdJwt none).present none prefixHash =
      .ok (join [issuerCompact, ""] SD_SEPARATOR) :=
    bind_eq_ok.mpr ⟨[], rfl, encodeSdJwt_issued (Or.inl ⟨rfl, rfl⟩)⟩
  have hhash : SdJwtInstance.calculateSdHash (join [issuerCompact, ""] SD_SEPARATOR)
      (issuedSdJwt none) prefixHash =
      .ok (uint8ArrayToBase64Url (prefixHash (join [issuerCompact, ""] SD_SEPARATOR) "sha-256")) :=
        rfl
  have hsign (sdHash : String) : SdJwtInstance.createKbJwt prefixHashConfig
      [("iat", .num 0), ("aud", .str "a"), ("nonce", .str "n")] sdHash =
        .ok (kbSigned sdHash) := rfl
  rw [presentedWithKb, SdJwtInstance.present, hhasher, ok_bind, issuerCompact_eq, hissued, ok_bind,
    if_neg (by decide), hpart]
  dsimp only
  rw [hpresent, ok_bind, hhash, ok_bind, hsign, ok_bind]
  exact bind_eq_ok.mpr ⟨[], rfl, encodeSdJwt_issued (Or.inr ⟨_, _, rfl, Jwt.encodeJwt_decoded⟩)⟩

/-- Nothing but the time of the signature is in the payload, and it is before the clock. -/
theorem validateJwtPayload_kbPayload (sdHash : String) :
    validateJwtPayload (kbPayload sdHash) (getJwtTimeValidationOptions { keyBindingNonce := "n" }) 1
      .keyBindingJwt =
      .ok () := by
  have hiat : validateNumericDate (kbPayload sdHash) "iat" = .ok (some (seconds 0)) := rfl
  have hnbf : validateNumericDate (kbPayload sdHash) "nbf" = .ok none := rfl
  have hexp : validateNumericDate (kbPayload sdHash) "exp" = .ok none := rfl
  have hbefore : ¬ seconds 0 - 0 > seconds 1 := by decide +kernel
  have htruthy : (!(kbPayload sdHash).truthy) = false := rfl
  have hthrow : throwIf (decide (seconds 0 - 0 > seconds 1))
      (throwTimeClaim .keyBindingJwt .notYetValid) = .ok () :=
    if_neg (by rw [decide_eq_false hbefore]; decide)
  rw [validateJwtPayload, htruthy, if_neg (by decide), hiat, ok_bind, hnbf, ok_bind, hexp, ok_bind]
  exact bind_eq_ok.mpr ⟨(), hthrow, rfl⟩

theorem verifyKb_kbSigned {sdHash : String} (hne : sdHash ≠ "") (payload : Value) :
    (kbSigned sdHash).verifyKb (fun _ _ _ => .ok true) payload "n" { keyBindingNonce := "n" } 1 =
      .ok (kbPayload sdHash, kbHeader) := by
  have hverify : (kbSigned sdHash).verify
      (fun _ _ _ => .ok true) { skipJwtClaimValidation := true } 1 =
      .ok (some (kbPayload sdHash), some kbHeader) :=
    @Jwt.verify_skipped _ _ _ _ "ES256" "c2ln" _ rfl rfl rfl rfl rfl
      (Jwt.getUnsignedToken_decoded (by decide) rfl rfl) rfl
  have hheader : Jwt.part (kbSigned sdHash).header = some kbHeader := rfl
  have hpayload : Jwt.part (kbSigned sdHash).payload = some (kbPayload sdHash) := rfl
  have hsignature : nonEmpty (kbSigned sdHash).signature = some "c2ln" := rfl
  have halg : (kbSigned sdHash).alg = some "ES256" := rfl
  have hiat : (kbPayload sdHash).get "iat" = .num 0 := rfl
  have haud : (kbPayload sdHash).get "aud" = .str "a" := rfl
  have hnonce : (kbPayload sdHash).get "nonce" = .str "n" := rfl
  have hsdHash : (kbPayload sdHash).get "sd_hash" = .str sdHash := rfl
  have htyp : Jwt.isJwtTyp (kbHeader.get "typ") KB_JWT_TYP = true := by decide
  have hcrit : Jwt.hasCrit (kbSigned sdHash).header = false := rfl
  unfold Jwt.verifyKb
  rw [hheader, hpayload, hsignature]
  dsimp only
  rw [halg, hiat, haud, hnonce, hsdHash]
  dsimp only
  rw [htyp, decide_eq_false hne, if_neg (by decide), Option.any_none, if_neg (by decide), hcrit,
    if_neg (by decide), if_neg (by simp), Option.any_none, if_neg (by decide), Option.any_none,
    throwIf, if_neg (by decide), ok_bind, validateJwtPayload_kbPayload, ok_bind, hverify, ok_bind]

theorem validate_presentedText (sdHash : String) :
    SdJwtInstance.validate prefixHashConfig 1 (presentedText sdHash) { keyBindingNonce := "n" } =
      .ok (.obj [("iss", .str "a")], issuerJwt.header) := by
  have hhasher : SdJwtInstance.requireHasher prefixHashConfig = .ok prefixHash := rfl
  have hverify : SdJwtInstance.verifyJwt prefixHashConfig 1 issuerJwt
      { keyBindingNonce := "n", skipJwtClaimValidation := true } =
        .ok (issuerJwt.payload, issuerJwt.header) := by
    show issuerJwt.verify (fun _ _ _ => .ok true)
      { keyBindingNonce := "n", skipJwtClaimValidation := true } 1 = _
    exact @Jwt.verify_skipped _ _ _ _ "ES256" "c2ln" _ rfl rfl rfl rfl rfl
      (Jwt.getUnsignedToken_decoded (by decide) rfl rfl) rfl
  have hclaims : (issuedSdJwt (some (kbSigned sdHash))).getClaims prefixHash =
      .ok (.obj [("iss", .str "a")]) := rfl
  rw [SdJwtInstance.validate, hhasher, ok_bind, fromEncode_presentedText, ok_bind]
  dsimp only [issuedSdJwt] at hclaims ⊢
  rw [hverify, ok_bind]
  dsimp only
  rw [hclaims]
  rfl

theorem verify_presentedText {sdHash : String} (hne : sdHash ≠ "")
    (hsdHash : sdHash = uint8ArrayToBase64Url
      (prefixHash (join [issuerCompact, ""] SD_SEPARATOR) "sha-256")) :
    SdJwtInstance.verify prefixHashConfig 1 (presentedText sdHash) { keyBindingNonce := "n" } =
      .ok { payload := .obj [("iss", .str "a")], header := issuerJwt.header,
            kb := some (kbPayload sdHash, kbHeader) } := by
  have hhash : SdJwtInstance.sdHash (issuedSdJwt (some (kbSigned sdHash))) prefixHash =
      .ok sdHash :=
    bind_eq_ok.mpr ⟨_, encodeSdJwt_issued (Or.inl ⟨rfl, rfl⟩), congrArg Except.ok hsdHash.symm⟩
  refine verifyWith_eq_ok.mpr ⟨prefixHash, _, rfl, fromEncode_presentedText sdHash, rfl,
    validate_presentedText sdHash, rfl, ?_⟩
  show ((kbSigned sdHash).verifyKb
    (fun _ _ _ => .ok true) _ "n" { keyBindingNonce := "n" } 1 >>= _) = _
  rw [verifyKb_kbSigned hne, ok_bind, hhash, ok_bind]
  exact if_pos rfl

theorem keyBinding_presented : ∃ out r x alg kb, presentedWithKb = .ok out ∧
    SdJwtInstance.verify prefixHashConfig 1 out { keyBindingNonce := "n" } = .ok r ∧
    x.encodeSdJwt = .ok out ∧
    HasAlg x alg ∧ r.kb = some kb ∧ kb.1.get "sd_hash" = .str (uint8ArrayToBase64Url
      (Common.stringToBytes (String.ofList ((throughLast out).toList.take 3)))) := by
  have hne : uint8ArrayToBase64Url
      (prefixHash (join [issuerCompact, ""] SD_SEPARATOR) "sha-256") ≠ "" := by
    rw [← issuerCompact_eq]
    decide +kernel
  obtain ⟨hencode, hverify, -⟩ := keyBinding prefixHashConfig _ rfl
    (by rintro _ _ _ ⟨⟩ ⟨⟩; decide) 1
  have hr := verify_presentedText hne rfl
  obtain ⟨x, alg, kb, hx, halg, hkb, hget⟩ := hverify _ _ _ "n" (by decide) hr
  exact ⟨_, _, x, alg, kb, presentedWithKb_eq, hr, hencode _ x hx, halg, hkb, hget⟩

end IdentityCommon.SdJwt
