import IdentityCommon.Common.Base64
import IdentityCommon.X509.Crl
import IdentityCommon.X509.EcdsaSignature

/-!
# Signed structures

Certificates and revocation lists are assembled of what was signed, the algorithm and the signature,
and what was signed is handed to the verifier again with the signature in the encoding that the
signer produced it in.

## Main definitions

- `derTlv` — an element as it is assembled, with a length that is computed by shifts
- `AsnConvert` — the library that parses certificates and lists
- `assembleSignedStructure`, `verifyCertificateSignature`, `verifyCrlSignature` — assembly and
  verification
- `EncodingsHold` — what the encodings of signatures are for

## Main results

- `derLength_of_lt`, `derLength_of_ge` — the length that is written, and a shorter one where the
  shift overflows
- `encodingsHold_iff` — when the encodings do what they are for
-/

namespace IdentityCommon.X509

open Cbor Der Common IdentityCommon.Except

/-! ## Algorithms and keys -/

inductive SignatureAlgorithm
  | ES256
  | ES384
  | ES512
  | RS256
  | RS384
  | RS512
  deriving DecidableEq

namespace SignatureAlgorithm

def oid : SignatureAlgorithm → String
  | ES256 => "1.2.840.10045.4.3.2"
  | ES384 => "1.2.840.10045.4.3.3"
  | ES512 => "1.2.840.10045.4.3.4"
  | RS256 => "1.2.840.113549.1.1.11"
  | RS384 => "1.2.840.113549.1.1.12"
  | RS512 => "1.2.840.113549.1.1.13"

/-- Whether the family is `ecdsa`. -/
def isEcdsa : SignatureAlgorithm → Bool
  | ES256 | ES384 | ES512 => true
  | RS256 | RS384 | RS512 => false

def all : List SignatureAlgorithm := [ES256, ES384, ES512, RS256, RS384, RS512]

end SignatureAlgorithm

def signatureAlgorithmName (oid : String) : Option SignatureAlgorithm :=
  SignatureAlgorithm.all.find? (·.oid = oid)

/-- The identifiers of the curves, with the length of a coordinate. -/
def CURVES : List (String × ℕ) :=
  [("1.2.840.10045.3.1.7", 32), ("1.3.132.0.34", 48), ("1.3.132.0.35", 66)]

def curveCoordinateLength (namedCurve : Option String) : Option ℕ :=
  (CURVES.find? fun curve => some curve.1 = namedCurve).map Prod.snd

structure ParsedPublicKey where
  algorithm : String
  namedCurve : Option String
  spki : Bytes
  deriving DecidableEq

/-! ## Elements -/

/-- The loop over the bytes of a length; `l >>= 8` shifts a signed integer of 32 bits. -/
def lengthLoop : ℕ → ℕ → Bytes → Bytes
  | 0, _, bytes => bytes
  | fuel + 1, l, bytes =>
    if 0 < l then lengthLoop fuel (toInt32 l >>> (8 : ℕ)).toNat (UInt8.ofNat l :: bytes) else bytes

def derLength (length : ℕ) : Bytes :=
  if length < 0x80 then [UInt8.ofNat length]
  else
    let bytes := lengthLoop length length []
    UInt8.ofNat (0x80 ||| bytes.length) :: bytes

/-- Encode a single DER TLV. -/
def derTlv (tag : UInt8) (content : Bytes) : Bytes := tag :: (derLength content.length ++ content)

/-! ## Signed structures -/

/-- What is parsed of a certificate or a list, as far as the verification reads it. -/
structure SignedAsn where
  raw : Option Bytes
  algorithm : String
  signatureValue : Bytes
  issuer : DistinguishedName
  authorityKeyIdentifier : Option String

structure CertificateAsn extends SignedAsn where
  subject : DistinguishedName
  subjectKeyIdentifier : Option String
  keyUsage : Option (List String)
  publicKey : ParsedPublicKey

/-- The elements of a signed structure. -/
def signedElements (tbs algorithm signature : Bytes) : Bytes :=
  tbs ++ algorithm ++ tlv 0x03 (0 :: signature)

/-- A parser returns the elements of a structure as they are, and rejects one that ends before its
last element. -/
structure ParsesElements (serializeAlgorithm : SignatureAlgorithm → Bytes)
    (parse : Bytes → Option SignedAsn) : Prop where
  elements : ∀ content algorithm signature parsed,
    parse (tlv 0x30 (signedElements (tlv 0x30 content) (serializeAlgorithm algorithm) signature)) =
      some parsed →
    parsed.raw = some (tlv 0x30 content) ∧ parsed.algorithm = algorithm.oid ∧
    parsed.signatureValue = signature
  truncated : ∀ content algorithm signature form length,
    length < (signedElements (tlv 0x30 content) (serializeAlgorithm algorithm) signature).length →
    IsLength form length →
    parse (0x30 :: (form ++ signedElements (tlv 0x30 content)
      (serializeAlgorithm algorithm) signature)) = none

/-- The library that serializes algorithm identifiers, and parses certificates and lists. -/
structure AsnConvert where
  serializeAlgorithm : SignatureAlgorithm → Bytes
  certificate : Bytes → Option CertificateAsn
  certificateList : Bytes → Option SignedAsn
  parses_certificate : ParsesElements serializeAlgorithm fun bytes =>
    (certificate bytes).map CertificateAsn.toSignedAsn
  parses_certificateList : ParsesElements serializeAlgorithm certificateList

/-- What is to be signed is one element, as the library serializes it. -/
structure PreparedSignedStructure where
  tbs : Bytes
  signatureAlgorithm : SignatureAlgorithm
  signerPublicKey : ParsedPublicKey
  element : ∃ content, tbs = tlv 0x30 content

inductive SignatureEncoding
  | ieeeP1363
  | der
  deriving DecidableEq

/-- The signature as it is put into the structure. -/
def encodedSignature (asn1js : Asn1js) (prepared : PreparedSignedStructure) (signature : Bytes)
    (signatureEncoding : SignatureEncoding) : Except X509Error Bytes :=
  if prepared.signatureAlgorithm.isEcdsa ∧ signatureEncoding = .ieeeP1363 then
    match curveCoordinateLength prepared.signerPublicKey.namedCurve with
    | some coordinateLength => ecdsaP1363ToDer asn1js signature coordinateLength
    | none => .error ⟨"Unable to determine the curve of the signer key for ECDSA encoding"⟩
  else .ok signature

def assembleSignedStructure (asn1js : Asn1js) (asn : AsnConvert)
    (prepared : PreparedSignedStructure) (signature : Bytes)
    (signatureEncoding : SignatureEncoding) : Except X509Error Bytes := do
  let signatureDer ← encodedSignature asn1js prepared signature signatureEncoding
  return derTlv 0x30 (prepared.tbs ++ asn.serializeAlgorithm prepared.signatureAlgorithm ++
    derTlv 0x03 (0 :: signatureDer))

/-- A certificate or a list, as far as its signature is concerned. -/
structure Signed where
  issuer : DistinguishedName
  authorityKeyIdentifier : Option String
  signatureAlgorithm : String
  signatureAlgorithmName : Option SignatureAlgorithm
  tbs : Bytes
  signature : Bytes

structure SignedCertificate extends Signed where
  subject : DistinguishedName
  subjectKeyIdentifier : Option String
  keyUsage : Option (List String)
  publicKey : ParsedPublicKey

def Signed.ofAsn (asn : SignedAsn) (tbs : Bytes) : Signed where
  issuer := asn.issuer
  authorityKeyIdentifier := asn.authorityKeyIdentifier
  signatureAlgorithm := asn.algorithm
  signatureAlgorithmName := X509.signatureAlgorithmName asn.algorithm
  tbs
  signature := asn.signatureValue

def parseCertificate (asn : AsnConvert) (der : Bytes) : Except X509Error SignedCertificate :=
  match asn.certificate der with
  | none => .error ⟨"Invalid X.509 certificate"⟩
  | some certificate => match certificate.raw with
    | none => .error ⟨"Unable to extract the TBSCertificate"⟩
    | some tbs => .ok
      { Signed.ofAsn certificate.toSignedAsn tbs with
        subject := certificate.subject
        subjectKeyIdentifier := certificate.subjectKeyIdentifier
        keyUsage := certificate.keyUsage
        publicKey := certificate.publicKey }

def parseSignedCrl (asn : AsnConvert) (der : Bytes) : Except X509Error Signed :=
  match asn.certificateList der with
  | none => .error ⟨"Invalid CRL"⟩
  | some crl => match crl.raw with
    | none => .error ⟨"Unable to extract the TBSCertList"⟩
    | some tbs => .ok (Signed.ofAsn crl tbs)

/-! ## Verification -/

structure SignatureVerificationInput where
  data : Bytes
  signature : Bytes
  signatureP1363 : Bytes
  signatureAlgorithm : String
  signatureAlgorithmName : Option SignatureAlgorithm
  publicKey : ParsedPublicKey

abbrev SignatureVerifier := SignatureVerificationInput → Bool

def verifySignature (asn1js : Asn1js) (signed : Signed) (data : Bytes) (publicKey : ParsedPublicKey)
    (verifier : SignatureVerifier) : Bool :=
  let input (signatureP1363 : Bytes) : SignatureVerificationInput :=
    { data, signature := signed.signature, signatureP1363,
      signatureAlgorithm := signed.signatureAlgorithm
      signatureAlgorithmName := signed.signatureAlgorithmName, publicKey }
  if signed.signatureAlgorithmName.any (·.isEcdsa) then
    match curveCoordinateLength publicKey.namedCurve with
    | none => false
    | some coordinateLength => match ecdsaDerToP1363 asn1js signed.signature coordinateLength with
      | .ok signatureP1363 => verifier (input signatureP1363)
      | .error _ => false
  else verifier (input signed.signature)

/-- Whether two key identifiers are there and differ. -/
def keyIdentifiersDiffer (authority subject : Option String) : Bool :=
  match authority, subject with
  | some authority, some subject => authority ≠ "" && subject ≠ "" && authority ≠ subject
  | _, _ => false

def verifyCertificateSignature (toLowerCase : String → String) (asn1js : Asn1js)
    (cert issuer : SignedCertificate) (verifier : SignatureVerifier) : Bool :=
  if !namesEqual toLowerCase cert.issuer issuer.subject then false
  else if keyIdentifiersDiffer cert.authorityKeyIdentifier issuer.subjectKeyIdentifier then false
  else verifySignature asn1js cert.toSigned cert.tbs issuer.publicKey verifier

def verifyCrlSignature (toLowerCase : String → String) (asn1js : Asn1js) (crl : Signed)
    (issuer : SignedCertificate) (verifier : SignatureVerifier) : Bool :=
  if !namesEqual toLowerCase crl.issuer issuer.subject then false
  else if keyIdentifiersDiffer crl.authorityKeyIdentifier issuer.subjectKeyIdentifier then false
  else if issuer.keyUsage.any (!·.contains "crlSign") then false
  else verifySignature asn1js crl crl.tbs issuer.publicKey verifier

/-! ## What the encodings are for -/

/-- Whether the verifier is asked about a certificate at all. -/
def namesIssuer (toLowerCase : String → String) (signed : Signed)
    (issuer : SignedCertificate) : Bool :=
  namesEqual toLowerCase signed.issuer issuer.subject &&
    !keyIdentifiersDiffer signed.authorityKeyIdentifier issuer.subjectKeyIdentifier

/-- What the verifier is to be asked about a structure: what was signed, and the signature as it was
produced. -/
def signedInput (prepared : PreparedSignedStructure) (rs signatureDer : Bytes)
    (publicKey : ParsedPublicKey) : SignatureVerificationInput where
  data := prepared.tbs
  signature := signatureDer
  signatureP1363 := rs
  signatureAlgorithm := prepared.signatureAlgorithm.oid
  signatureAlgorithmName := some prepared.signatureAlgorithm
  publicKey

/-- A structure with a signature `r || s`, assembled in either encoding: the verification of what is
parsed of it asks the verifier about what was signed, with `r || s`. -/
def HandsOver (toLowerCase : String → String) (asn1js : Asn1js) (asn : AsnConvert)
    (prepared : PreparedSignedStructure) (rs signatureDer : Bytes) (bytes : Bytes) : Prop :=
  (∀ cert, parseCertificate asn bytes = .ok cert → ∀ issuer : SignedCertificate,
    issuer.publicKey.namedCurve = prepared.signerPublicKey.namedCurve → ∀ verifier,
      verifyCertificateSignature toLowerCase asn1js cert issuer verifier =
        (namesIssuer toLowerCase cert.toSigned issuer &&
        verifier (signedInput prepared rs signatureDer issuer.publicKey))) ∧
  ∀ crl, parseSignedCrl asn bytes = .ok crl → ∀ issuer : SignedCertificate,
    issuer.publicKey.namedCurve = prepared.signerPublicKey.namedCurve → ∀ verifier,
      verifyCrlSignature toLowerCase asn1js crl issuer verifier =
        (namesIssuer toLowerCase crl issuer && !issuer.keyUsage.any (!·.contains "crlSign") &&
        verifier (signedInput prepared rs signatureDer issuer.publicKey))

/-- The encodings of the signatures of a curve: a signature is read back, two structures that are
accepted are the encoding of what is read of them and the same where the same is read, and what is
assembled is handed over. -/
structure EncodingsHold (toLowerCase : String → String) (asn1js : Asn1js) (asn : AsnConvert)
    (n : ℕ) (rs : Bytes) (der der' : Bytes) (prepared : PreparedSignedStructure) : Prop where
  roundTrip : ∃ bytes, ecdsaP1363ToDer asn1js rs n = .ok bytes ∧
    ecdsaDerToP1363 asn1js bytes n = .ok rs
  strict : Strict asn1js n der
  strict' : Strict asn1js n der'
  same : ∀ out, ecdsaDerToP1363 asn1js der n = .ok out →
    ecdsaDerToP1363 asn1js der' n = .ok out → der = der'
  handsOver : ∃ signatureDer bytes, ecdsaP1363ToDer asn1js rs n = .ok signatureDer ∧
    assembleSignedStructure asn1js asn prepared rs .ieeeP1363 = .ok bytes ∧
    assembleSignedStructure asn1js asn prepared signatureDer .der = .ok bytes ∧
    HandsOver toLowerCase asn1js asn prepared rs signatureDer bytes

/-! ## Lengths -/

theorem lengthLoop_eq {fuel l : ℕ} (hl : l < 2 ^ 31) (hfuel : l ≤ fuel) (bytes : Bytes) :
    lengthLoop fuel l bytes = octets l ++ bytes := by
  have hzero : octets 0 = [] := rfl
  induction fuel generalizing l bytes with
  | zero =>
    obtain rfl := Nat.le_zero.mp hfuel
    rw [hzero]
    rfl
  | succ fuel ih =>
    unfold lengthLoop
    split_ifs with hpos
    · have hshift : (toInt32 l >>> (8 : ℕ)).toNat = l / 256 := by
        unfold toInt32
        rw [Int.shiftRight_eq_div_pow]
        split <;> omega
      rw [hshift, ih (by omega) (by omega), octets_eq hpos, List.append_assoc,
        List.singleton_append]
    · obtain rfl : l = 0 := by omega
      rw [hzero]
      rfl

theorem or_eq_add {k : ℕ} (h : k < 128) : 0x80 ||| k = 128 + k := by
  have := Nat.two_pow_add_eq_or_of_lt (i := 7) h 1
  simpa using this.symm

/-- The length is written in the shortest form where the shift does not overflow. -/
theorem derLength_of_lt {n : ℕ} (h : n < 2 ^ 31) : derLength n = lengthOctets n := by
  unfold derLength lengthOctets
  dsimp only
  split_ifs
  · rfl
  · have hcount := length_octets_le (n := n) (k := 4) (by omega)
    rw [lengthLoop_eq h le_rfl, List.append_nil, or_eq_add (by omega)]

/-- Where the shift overflows, the length of fewer bytes is written. -/
theorem derLength_of_ge {n : ℕ} (h : 2 ^ 31 ≤ n) : ∃ k < n, IsLength (derLength n) k := by
  have hnext : (toInt32 n >>> (8 : ℕ)).toNat * 256 + n % 256 < n ∧
      (toInt32 n >>> (8 : ℕ)).toNat < 2 ^ 23 := by
    unfold toInt32
    rw [Int.shiftRight_eq_div_pow]
    split <;> omega
  have hcount := length_octets_le (n := (toInt32 n >>> (8 : ℕ)).toNat) (k := 3) (by omega)
  have hloop : lengthLoop n n [] = octets (toInt32 n >>> (8 : ℕ)).toNat ++ [UInt8.ofNat n] := by
    obtain ⟨fuel, hfuel⟩ : ∃ fuel, n = fuel + 1 := ⟨n - 1, by omega⟩
    have hstep : lengthLoop n n [] =
        lengthLoop fuel (toInt32 n >>> (8 : ℕ)).toNat [UInt8.ofNat n] := by
      rw [show lengthLoop n n [] = lengthLoop (fuel + 1) n [] by rw [← hfuel], lengthLoop,
        if_pos (by omega)]
    rw [hstep, lengthLoop_eq (by omega) (by omega)]
  have hlength : (octets (toInt32 n >>> (8 : ℕ)).toNat ++ [UInt8.ofNat n]).length ≤ 4 := by
    rw [List.length_append, List.length_singleton]
    omega
  refine ⟨_, hnext.1, .inr ⟨octets (toInt32 n >>> (8 : ℕ)).toNat ++ [UInt8.ofNat n], by
    omega, ?_, ?_⟩⟩
  · unfold derLength
    dsimp only
    rw [if_neg (by omega), hloop, or_eq_add (by omega)]
  · have hlast : ofBigEndian [UInt8.ofNat n] = n % 256 := by
      rw [ofBigEndian, List.foldl_cons, List.foldl_nil, UInt8.toNat_ofNat',
        Nat.zero_mul, Nat.zero_add]
    rw [ofBigEndian_append, ofBigEndian_octets, hlast, List.length_singleton, pow_one]

theorem derTlv_of_lt (tag : UInt8) {content : Bytes} (h : content.length < 2 ^ 31) :
    derTlv tag content = tlv tag content := by
  rw [derTlv, derLength_of_lt h, tlv]

/-! ## Verification -/

theorem signatureAlgorithmName_oid (algorithm : SignatureAlgorithm) :
    signatureAlgorithmName algorithm.oid = some algorithm := by
  cases algorithm <;> decide

theorem curve_bounds {namedCurve : Option String} {n : ℕ}
    (h : curveCoordinateLength namedCurve = some n) :
    0 < n ∧ n < 2 ^ 15 := by
  obtain ⟨curve, hcurve, rfl⟩ := Option.map_eq_some_iff.mp h
  have hmem := List.mem_of_find?_eq_some hcurve
  have hall : ∀ curve ∈ CURVES, 0 < curve.2 ∧ curve.2 < 2 ^ 15 := by decide
  exact hall curve hmem

/-- What is parsed of a structure that was assembled: its elements, if anything. -/
theorem parse_assembled {asn : AsnConvert} {parse : Bytes → Option SignedAsn}
    (hparse : ParsesElements asn.serializeAlgorithm parse) (prepared : PreparedSignedStructure)
    {signatureDer : Bytes} (hsmall : (0 :: signatureDer).length < 2 ^ 31) {parsed : SignedAsn}
    (h : parse (derTlv 0x30 (prepared.tbs ++ asn.serializeAlgorithm prepared.signatureAlgorithm ++
      derTlv 0x03 (0 :: signatureDer))) = some parsed) :
    parsed.raw = some prepared.tbs ∧ parsed.algorithm = prepared.signatureAlgorithm.oid ∧
      parsed.signatureValue = signatureDer := by
  obtain ⟨content, hcontent⟩ := prepared.element
  rw [derTlv_of_lt _ hsmall, hcontent] at h
  rw [hcontent]
  rcases Nat.lt_or_ge (signedElements (tlv 0x30 content)
      (asn.serializeAlgorithm prepared.signatureAlgorithm)
      signatureDer).length (2 ^ 31) with hlt | hge
  · rw [← signedElements, derTlv_of_lt _ hlt] at h
    exact hparse.elements _ _ _ _ h
  · obtain ⟨k, hk, hform⟩ := derLength_of_ge hge
    rw [← signedElements, derTlv, hparse.truncated _ _ _ _ k hk hform] at h
    cases h

section

variable (asn1js : Asn1js) {prepared : PreparedSignedStructure} {n : ℕ} {rs signatureDer : Bytes}
  (hecdsa : prepared.signatureAlgorithm.isEcdsa = true)
  (hcurve : curveCoordinateLength prepared.signerPublicKey.namedCurve = some n)
  (hread : ecdsaDerToP1363 asn1js signatureDer n = .ok rs)

include hecdsa hcurve hread

/-- The verifier is asked about what is parsed, with the signature as it was produced. -/
theorem verifySignature_eq {parsed : SignedAsn}
    (halgorithm : parsed.algorithm = prepared.signatureAlgorithm.oid)
    (hsignature : parsed.signatureValue = signatureDer) (publicKey : ParsedPublicKey)
    (hkey : publicKey.namedCurve = prepared.signerPublicKey.namedCurve)
    (verifier : SignatureVerifier) :
    verifySignature asn1js (Signed.ofAsn parsed prepared.tbs) prepared.tbs publicKey verifier =
      verifier (signedInput prepared rs signatureDer publicKey) := by
  have hname : (Signed.ofAsn parsed prepared.tbs).signatureAlgorithmName =
      some prepared.signatureAlgorithm := by
    rw [Signed.ofAsn, halgorithm, signatureAlgorithmName_oid]
  have hsigned : (Signed.ofAsn parsed prepared.tbs).signature = signatureDer := hsignature
  have hoid : (Signed.ofAsn parsed prepared.tbs).signatureAlgorithm =
      prepared.signatureAlgorithm.oid := halgorithm
  unfold verifySignature
  dsimp only
  rw [hname, hsigned, hoid, Option.any_some, if_pos hecdsa, hkey, hcurve]
  dsimp only
  rw [hread]
  rfl

theorem handsOver (toLowerCase : String → String) (asn : AsnConvert)
    (hsmall : (0 :: signatureDer).length < 2 ^ 31) :
    HandsOver toLowerCase asn1js asn prepared rs signatureDer (derTlv 0x30 (prepared.tbs ++
      asn.serializeAlgorithm prepared.signatureAlgorithm ++ derTlv 0x03 (0 :: signatureDer))) := by
  have hguards : ∀ a b c : Bool, (if !a then false else if b then false else c) =
      (a && !b && c) := by decide
  have hguards' : ∀ a b d c : Bool,
      (if !a then false else if b then false else if d then false else c) =
        (a && !b && !d && c) := by decide
  constructor
  · intro cert hcert issuer hkey verifier
    unfold parseCertificate at hcert
    split at hcert
    case h_1 => cases hcert
    case h_2 certificate hcertificate =>
      have hparse : (asn.certificate _).map CertificateAsn.toSignedAsn =
          some certificate.toSignedAsn :=
        congrArg (Option.map _) hcertificate
      have hparsed := parse_assembled asn.parses_certificate prepared hsmall hparse
      rw [hparsed.1] at hcert
      cases hcert
      have hverify := verifySignature_eq asn1js hecdsa hcurve hread hparsed.2.1 hparsed.2.2
        issuer.publicKey hkey verifier
      rw [← hverify]
      exact hguards _ _ _
  · intro crl hcrl issuer hkey verifier
    unfold parseSignedCrl at hcrl
    split at hcrl
    case h_1 => cases hcrl
    case h_2 parsed hparse =>
      have hparsed := parse_assembled asn.parses_certificateList prepared hsmall hparse
      rw [hparsed.1] at hcrl
      cases hcrl
      have hverify := verifySignature_eq asn1js hecdsa hcurve hread hparsed.2.1 hparsed.2.2
        issuer.publicKey hkey verifier
      rw [← hverify]
      exact hguards' _ _ _ _

end

theorem length_ecdsaSignature_lt {r s n : ℕ} (hn : n < 2 ^ 15) (hr : r < 256 ^ n)
    (hs : s < 256 ^ n) :
    (0 :: ecdsaSignature r s).length < 2 ^ 31 := by
  have hrlen := length_integerOctets_le hr
  have hslen := length_integerOctets_le hs
  have hrtlv := length_tlv_le 0x02 (integerOctets r) (k := 2) (by omega)
  have hstlv := length_tlv_le 0x02 (integerOctets s) (k := 2) (by omega)
  have hall := length_tlv_le 0x30 (tlv 0x02 (integerOctets r) ++
      tlv 0x02 (integerOctets s)) (k := 3) (by
    rw [List.length_append]
    omega)
  rw [List.length_append] at hall
  rw [List.length_cons, ecdsaSignature]
  omega

/-- The encodings do what they are for exactly where structures that are read as two integers are in
the distinguished encoding. -/
theorem encodingsHold_iff (toLowerCase : String → String) (asn1js : Asn1js) (asn : AsnConvert)
    (prepared : PreparedSignedStructure) {n : ℕ} (rs der der' : Bytes)
    (hecdsa : prepared.signatureAlgorithm.isEcdsa = true)
    (hcurve : curveCoordinateLength prepared.signerPublicKey.namedCurve = some n)
    (hrs : rs.length = n * 2) :
    EncodingsHold toLowerCase asn1js asn n rs der der' prepared ↔
      ReadsDistinguished asn1js n der ∧ ReadsDistinguished asn1js n der' := by
  obtain ⟨hn, hn'⟩ := curve_bounds hcurve
  constructor
  · intro h
    exact ⟨(strict_iff asn1js hn hn' der).mp h.strict, (strict_iff asn1js hn hn' der').mp h.strict'⟩
  · rintro ⟨hder, hder'⟩
    have hstrict := (strict_iff asn1js hn hn' der).mpr hder
    have hstrict' := (strict_iff asn1js hn hn' der').mpr hder'
    have hround := ecdsaDerToP1363_ecdsaP1363ToDer asn1js hn hn' hrs
    refine ⟨hround, hstrict, hstrict', fun out hout hout' => ?_, ?_⟩
    · obtain ⟨r, s, hr, hs, hbytes, hout⟩ := hstrict out hout
      obtain ⟨r', s', hr', hs', hbytes', hout'⟩ := hstrict' out hout'
      obtain ⟨rfl, rfl⟩ := halves_injective hr hs hr' hs' (hout.symm.trans hout')
      rw [hbytes, hbytes']
    · obtain ⟨signatureDer, hencode, hread⟩ := hround
      have hsmall : (0 :: signatureDer).length < 2 ^ 31 := by
        have heq := ecdsaP1363ToDer_eq asn1js hn hrs
        rw [hencode] at heq
        obtain rfl := Except.ok.inj heq
        have hr := ofBigEndian_lt (rs.take n)
        have hs := ofBigEndian_lt (rs.drop n)
        rw [List.length_take, Nat.min_eq_left (by omega)] at hr
        rw [List.length_drop, show rs.length - n = n by omega] at hs
        exact length_ecdsaSignature_lt hn' hr hs
      have hassembled : encodedSignature asn1js prepared rs .ieeeP1363 = .ok signatureDer := by
        rw [encodedSignature, if_pos ⟨hecdsa, rfl⟩, hcurve]
        exact hencode
      have hassembled' : encodedSignature asn1js prepared signatureDer .der = .ok signatureDer :=
        if_neg fun h => by cases h.2
      refine ⟨signatureDer, _, hencode, ?_, ?_,
        handsOver asn1js hecdsa hcurve hread toLowerCase asn hsmall⟩
      · rw [assembleSignedStructure, hassembled]
        rfl
      · rw [assembleSignedStructure, hassembled']
        rfl

/-! ## A certificate -/

def algorithmIdentifier (algorithm : SignatureAlgorithm) : Bytes := tlv 0x30 (match algorithm with
  | .ES256 => [6, 8, 42, 134, 72, 206, 61, 4, 3, 2]
  | .ES384 => [6, 8, 42, 134, 72, 206, 61, 4, 3, 3]
  | .ES512 => [6, 8, 42, 134, 72, 206, 61, 4, 3, 4]
  | .RS256 => [6, 9, 42, 134, 72, 134, 247, 13, 1, 1, 11, 5, 0]
  | .RS384 => [6, 9, 42, 134, 72, 134, 247, 13, 1, 1, 12, 5, 0]
  | .RS512 => [6, 9, 42, 134, 72, 134, 247, 13, 1, 1, 13, 5, 0])

theorem algorithmIdentifier_injective {algorithm algorithm' : SignatureAlgorithm}
    {rest rest' : Bytes} (hlength : (algorithmIdentifier algorithm ++ rest).length < 256 ^ 126)
    (h : algorithmIdentifier algorithm ++ rest = algorithmIdentifier algorithm' ++ rest') :
    algorithm = algorithm' ∧ rest = rest' := by
  obtain ⟨-, hcontent, hrest⟩ := tlv_append_inj hlength h
  refine ⟨?_, hrest⟩
  cases algorithm <;> cases algorithm' <;> first | rfl | (revert hcontent; decide)

/-- A structure has one list of elements. -/
theorem signedElements_injective {content content' signature signature' : Bytes}
    {algorithm algorithm' : SignatureAlgorithm}
    (hlength : (tlv 0x30 (signedElements (tlv 0x30 content)
      (algorithmIdentifier algorithm) signature)).length < 256 ^ 126)
    (h : tlv 0x30 (signedElements (tlv 0x30 content) (algorithmIdentifier algorithm) signature) =
      tlv 0x30 (signedElements (tlv 0x30 content') (algorithmIdentifier algorithm') signature')) :
    content = content' ∧ algorithm = algorithm' ∧ signature = signature' := by
  have hinner := (length_le_length_tlv 0x30 _).trans_lt hlength
  rw [← List.append_nil (tlv _ _)] at hlength
  have helements := (tlv_append_inj hlength (congrArg (· ++ []) h)).2.1
  rw [signedElements, List.append_assoc] at hinner helements
  rw [signedElements, List.append_assoc] at helements
  obtain ⟨-, hcontent, hrest⟩ := tlv_append_inj hinner helements
  have hlast : (algorithmIdentifier algorithm ++ tlv 0x03 (0 :: signature)).length < 256 ^ 126 := by
    rw [List.length_append] at hinner
    exact (Nat.le_add_left _ _).trans_lt hinner
  obtain ⟨halgorithm, hbits⟩ := algorithmIdentifier_injective hlast hrest
  rw [List.length_append] at hlast
  have hend : (tlv 0x03 (0 :: signature) ++ []).length < 256 ^ 126 := by
    rw [List.append_nil]
    exact (Nat.le_add_left _ _).trans_lt hlast
  obtain ⟨-, hsignature, -⟩ := tlv_append_inj hend (congrArg (· ++ []) hbits)
  exact ⟨hcontent, halgorithm, (List.cons.inj hsignature).2⟩

/-- A parser that accepts one structure only, with the elements of that structure. -/
theorem parsesElements_of_only {parse : Bytes → Option SignedAsn} {content signature : Bytes}
    {algorithm : SignatureAlgorithm} {parsed : SignedAsn}
    (hraw : parsed.raw = some (tlv 0x30 content)) (halgorithm : parsed.algorithm = algorithm.oid)
    (hsignature : parsed.signatureValue = signature)
    (hlength : (tlv 0x30 (signedElements (tlv 0x30 content)
      (algorithmIdentifier algorithm) signature)).length < 256 ^ 126)
    (honly : ∀ bytes, parse bytes = if bytes =
      tlv 0x30 (signedElements (tlv 0x30 content) (algorithmIdentifier algorithm)
      signature) then some parsed else none) : ParsesElements algorithmIdentifier parse := by
  constructor
  · intro content' algorithm' signature' parsed' h
    rw [honly] at h
    split_ifs at h with heq
    cases h
    obtain ⟨rfl, rfl, rfl⟩ := signedElements_injective hlength heq.symm
    exact ⟨hraw, halgorithm, hsignature⟩
  · intro content' algorithm' signature' form length hlt hform
    rw [honly, if_neg]
    intro heq
    have hinner := (length_le_length_tlv 0x30 _).trans_lt hlength
    have hread := readLength_of_isLength hform
      (signedElements (tlv 0x30 content') (algorithmIdentifier algorithm') signature')
    rw [(List.cons.inj heq).2, readLength_of_isLength (isLength_lengthOctets hinner)] at hread
    obtain ⟨hlength, helements⟩ := Prod.mk.inj (Option.some.inj hread)
    rw [← hlength, helements] at hlt
    exact lt_irrefl _ hlt

/-- The key of a self-signed certificate on the curve `1.2.840.10045.3.1.7`. -/
def caPublicKey : ParsedPublicKey where
  algorithm := "1.2.840.10045.2.1"
  namedCurve := some "1.2.840.10045.3.1.7"
  spki :=
    [48, 89, 48, 19, 6, 7, 42, 134, 72, 206, 61, 2, 1, 6, 8, 42, 134, 72, 206, 61, 3, 1, 7, 3, 66,
      0, 4, 246, 220, 39, 39, 155, 52, 177, 50, 118, 79, 103, 113, 163, 40, 233, 96, 135, 42, 192,
      221, 87, 207, 50, 12, 2, 241, 249, 56, 88, 164, 248, 147, 46, 87, 195, 161, 178, 175, 252, 7,
      187, 195, 92, 136, 3, 1, 77, 229, 125, 80, 233, 252, 48, 3, 238, 145, 202, 114, 60, 255, 176,
      217, 15, 170]

/-- What the certificate says. -/
def caContent : Bytes :=
  [160, 3, 2, 1, 2, 2, 1, 1, 48, 10, 6, 8, 42, 134, 72, 206, 61, 4, 3, 2, 48, 13, 49, 11, 48, 9, 6,
    3, 85, 4, 3, 12, 2, 99, 97, 48, 30, 23, 13, 50, 54, 49, 49, 49, 57, 49, 49, 49, 54, 50, 52, 90,
    23, 13, 51, 54, 49, 49, 49, 54, 49, 49, 49, 54, 50, 52, 90, 48, 13, 49, 11, 48, 9, 6, 3, 85, 4,
    3, 12, 2, 99, 97] ++
  caPublicKey.spki ++
  [163, 49, 48, 47, 48, 14, 6, 3, 85, 29, 15, 1, 1, 255, 4, 4, 3, 2, 1, 6, 48, 29, 6, 3, 85, 29, 14,
    4, 22, 4, 20, 209, 233, 138, 166, 177, 106, 143, 215, 80, 140, 5, 6, 166, 249, 19, 186, 20, 137,
    83, 149]

/-- The signature of the certificate. -/
def caSignature : Bytes :=
  [105, 177, 251, 126, 97, 69, 217, 222, 107, 237, 89, 229, 196, 66, 104, 243, 83, 192, 248, 218,
    21, 182, 212, 34, 126, 196, 152, 44, 224, 57, 69, 137, 204, 159, 253, 71, 35, 7, 123, 215, 4,
    83, 170, 227, 130, 204, 108, 219, 227, 224, 189, 99, 131, 70, 191, 193, 187, 86, 157, 12, 209,
    232, 198, 136]

/-- What is parsed of the certificate. -/
def caCertificate : CertificateAsn where
  raw := some (tlv 0x30 caContent)
  algorithm := "1.2.840.10045.4.3.2"
  signatureValue := ecdsaSignature (ofBigEndian (caSignature.take 32))
    (ofBigEndian (caSignature.drop 32))
  issuer := ⟨[⟨"2.5.4.3", "ca"⟩]⟩
  authorityKeyIdentifier := none
  subject := ⟨[⟨"2.5.4.3", "ca"⟩]⟩
  subjectKeyIdentifier := some "d1e98aa6b16a8fd7508c0506a6f913ba14895395"
  keyUsage := some ["keyCertSign", "crlSign"]
  publicKey := caPublicKey

/-- The certificate in the distinguished encoding. -/
def caBytes : Bytes :=
  tlv 0x30 (signedElements (tlv 0x30 caContent)
    (algorithmIdentifier .ES256) caCertificate.signatureValue)

/-- A library that knows the certificate. -/
def caConvert : AsnConvert where
  serializeAlgorithm := algorithmIdentifier
  certificate bytes := if bytes = caBytes then some caCertificate else none
  certificateList _ := none
  parses_certificate := by
    have hlength : caBytes.length < 256 ^ 126 := by decide +kernel
    refine parsesElements_of_only (rfl : caCertificate.toSignedAsn.raw = _) rfl rfl hlength
      fun bytes => ?_
    exact apply_ite (Option.map CertificateAsn.toSignedAsn) (bytes = caBytes)
      (some caCertificate) none
  parses_certificateList := ⟨nofun, fun _ _ _ _ _ _ _ => rfl⟩

/-- What is signed of the certificate. -/
def caPrepared : PreparedSignedStructure where
  tbs := tlv 0x30 caContent
  signatureAlgorithm := .ES256
  signerPublicKey := caPublicKey
  element := ⟨caContent, rfl⟩

theorem encodingsHold_iff_ca :
    EncodingsHold id definite caConvert 32 caSignature caCertificate.signatureValue
    caCertificate.signatureValue caPrepared ↔
      ReadsDistinguished definite 32 caCertificate.signatureValue ∧
      ReadsDistinguished definite 32 caCertificate.signatureValue :=
  encodingsHold_iff id definite caConvert caPrepared caSignature _ _ rfl (by decide) (by decide)

/-- Bytes with a negative integer are accepted. -/
theorem negative_not_encodingsHold : ¬ EncodingsHold id definite caConvert 32 caSignature
    [0x30, 6, 2, 1, 0x80, 2, 1, 1] (ecdsaSignature 128 1) caPrepared := by
  intro h
  have hsame := h.same _ ecdsaDerToP1363_negative.1 ecdsaDerToP1363_negative.2.1
  exact ecdsaDerToP1363_negative.2.2 hsame.symm

end IdentityCommon.X509
