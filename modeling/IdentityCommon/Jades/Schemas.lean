import IdentityCommon.Common.StrictSchemas

/-!
# The components of a JAdES signature

The schemas that the headers and the serializations of a signature are validated against.

## Main definitions

- `Platform` — what the platform knows about texts
- `zSigD` — the reference to a detached payload
- `zUnprotectedHeader`, `zGeneralJws`, `zFlattenedJws` — the unprotected header, and the JSON
  serializations
- `zProtectedHeaderParams`, `zProtectedHeader`, `zProtectedHeaderForSigning` — protected headers

## Main results

- `settles_zUnprotectedHeader` — an unprotected header that was accepted is accepted again

## Design notes

A schema returns what it makes of a value that it accepts; the issues that it reports otherwise are
left out. -/

namespace IdentityCommon.Jades

open Ecma AssocList Value Common

structure Platform where
  /-- Whether `new URL(value)` returns. -/
  isUri : String → Bool
  /-- `Date.parse(value)`, unless it is `NaN`. -/
  dateParse : String → Option ℤ
  toLowerCase : String → String

def httpHeaders : String := "http://uri.etsi.org/19182/HttpHeaders"

def objectByUri : String := "http://uri.etsi.org/19182/ObjectIdByURI"

def objectByUriHash : String := "http://uri.etsi.org/19182/ObjectIdByURIHash"

def criticalParameters : List String := ["sigD", "b64"]

/-! ## Values -/

def isUndefined : Value → Bool
  | undefined => true
  | _ => false

/-- `value === text`. -/
def isText (text : String) : Value → Bool
  | str s => s = text
  | _ => false

/-- `value === false`. -/
def isFalse : Value → Bool
  | .leaf (.bool b) => !b
  | _ => false

def itemsOf : Value → List Value
  | arr items => items
  | _ => []

def textsOf (value : Value) : List String :=
  (itemsOf value).filterMap fun item => match item with
    | str s => some s
    | _ => none

def membersOf : Value → List (String × Value)
  | obj members => members
  | _ => []

/-- `name in value`, for an object. -/
def hasMember (name : String) (value : Value) : Bool :=
  name ∈ keys (membersOf value) || !isUndefined (inherited name)

def isNonEmptyObject (value : Value) : Bool := !(membersOf value).isEmpty

/-! ## Texts -/

def isBase64Char (c : Char) : Bool := c.isAlphanum || c = '+' || c = '/'

/-- `/^(?:[A-Za-z0-9+/]{4})*(?:[A-Za-z0-9+/]{2}==|[A-Za-z0-9+/]{3}=)?$/`. -/
def isBase64 : List Char → Bool
  | [] => true
  | a :: b :: c :: d :: rest =>
    isBase64Char a && isBase64Char b &&
      (isBase64Char c && isBase64Char d && isBase64 rest ||
        rest.isEmpty && d = '=' && (c = '=' || isBase64Char c))
  | _ => false

/-- `/^[A-Za-z0-9_-]+$/`. -/
def isBase64Url (cs : List Char) : Bool :=
  !cs.isEmpty && cs.all fun c => c.isAlphanum || c = '_' || c = '-'

/-- `/^\d{4}-\d{2}-\d{2}T\d{2}:\d{2}:\d{2}Z$/`. -/
def isUtcSeconds (cs : List Char) : Bool :=
  let template := "0000-00-00T00:00:00Z".toList
  cs.length = template.length &&
    (cs.zip template).all fun (c, t) => if t = '0' then c.isDigit else c = t

/-- `/\s/`. -/
def isSpace (c : Char) : Bool :=
  c ∈ ['\t', '\n', '\x0b', '\x0c', '\r', ' ', '\u00a0', '\u1680', '\u2028', '\u2029', '\u202f',
    '\u205f', '\u3000', '\ufeff'] || '\u2000' ≤ c && c ≤ '\u200a'

def zText : Schema := textWhere (· ≠ "")

def zBase64 : Schema := textWhere fun s => s ≠ "" && isBase64 s.toList

def zBase64Url : Schema := textWhere fun s => isBase64Url s.toList

def zUriReference : Schema := textWhere fun s => s ≠ "" && !s.toList.any isSpace

section

variable (platform : Platform)

def zDigestAlgorithm : Schema := textWhere fun s => s ≠ "" && platform.toLowerCase s ≠ "md5"

def zUri : Schema := textWhere fun s => s ≠ "" && platform.isUri s

def zDateTime : Schema := textWhere fun s => s ≠ "" && (platform.dateParse s).isSome

def zClaimedSigningTime : Schema :=
  textWhere fun s => isUtcSeconds s.toList && (platform.dateParse s).isSome

def zSignAlg : Schema := textWhere fun s => s ≠ "" && platform.toLowerCase s ≠ "none"

/-! ## Objects -/

def zOid : Schema :=
  strictObject [("id", zUri platform), ("desc", optional zString),
    ("docRefs", optional (arrayOfAtLeast 1 (zUri platform)))]

def zPkiObject : Schema :=
  strictObject [("encoding", optional (zUri platform)), ("specRef", optional zString),
    ("val", zBase64)]

def zTstToken : Schema :=
  strictObject [("type", optional zString), ("encoding", optional (zUri platform)),
    ("specRef", optional zString), ("val", zBase64)]

def zTstTokens : Schema := arrayOfAtLeast 1 (zTstToken platform)

def zSigTst : Schema := strictObject [("tstTokens", zTstTokens platform)]

def zAdoTst : Schema := zSigTst platform

def zCertificateDigest : Schema :=
  strictObject [("digAlg", zDigestAlgorithm platform), ("digVal", zBase64Url)]

def zX5tO : Schema :=
  refine (zCertificateDigest platform) fun value => match value.get "digAlg" with
    | str digAlg => platform.toLowerCase digAlg ≠ "sha-256"
    | _ => true

def zCommitmentReference : Schema :=
  strictObject [("commId", zOid platform), ("commQuals", optional (arrayOfAtLeast 1 record))]

def zSignatureProductionPlace : Schema :=
  refine (strictObject [("addressCountry", optional zString), ("addressLocality", optional zString),
    ("addressRegion", optional zString), ("postOfficeBoxNumber", optional zString),
    ("postalCode", optional zString), ("streetAddress", optional zString)]) isNonEmptyObject

def zQualifiedArray : Schema :=
  arrayOfAtLeast 1 (strictObject [("mediaType", zText), ("encoding", zText),
    ("qVals", arrayOfAtLeast 1 zUnknown)])

def zCertifiedAttribute : Schema :=
  tagged [("x509AttrCert", zPkiObject platform), ("otherAttrCert", zPkiObject platform)]

def zSignerAttributes : Schema :=
  refine (strictObject [("certified", optional (arrayOfAtLeast 1 (zCertifiedAttribute platform))),
    ("claimed", optional zQualifiedArray), ("signedAssertions", optional zQualifiedArray)])
      isNonEmptyObject

def zUserNotice : Schema :=
  refine (strictObject [
    ("noticeRef", optional
      (strictObject [("organization", zString), ("noticeNumbers", arrayOfAtLeast 1 zInteger)])),
    ("explText", optional zString)]) isNonEmptyObject

def zSignaturePolicyQualifier : Schema :=
  tagged [("spURI", zUri platform), ("spUserNotice", zUserNotice), ("spDSpec", zOid platform)]

def zSignaturePolicy : Schema :=
  refine (strictObject [("id", zOid platform), ("digAlg", optional (zDigestAlgorithm platform)),
    ("digVal", optional zBase64Url), ("digPSp", optional zBoolean),
    ("sigPQuals", optional (arrayOfAtLeast 1 (zSignaturePolicyQualifier platform)))]) fun value =>
    isUndefined (value.get "digAlg") = isUndefined (value.get "digVal") &&
      (match value.get "digPSp" with
        | .leaf (.bool true) => (itemsOf (value.get "sigPQuals")).any (hasMember "spDSpec")
        | _ => true)

/-- What is asked of a reference to a detached payload besides its members: the digests belong to a
mechanism that has them. -/
def isSigD (value : Value) : Bool :=
  let length name := (itemsOf (value.get name)).length
  let absent name := isUndefined (value.get name)
  absent "hashM" = absent "hashV" && (absent "hashV" || length "hashV" = length "pars") &&
    (absent "ctys" || length "ctys" = length "pars") &&
    if isText httpHeaders (value.get "mId") then
      absent "hashM" && absent "hashV" && absent "ctys" &&
        (textsOf (value.get "pars")).all fun parameter => platform.toLowerCase parameter = parameter
    else if isText objectByUri (value.get "mId") then absent "hashM" && absent "hashV"
    else !isText objectByUriHash (value.get "mId") || !absent "hashM" && !absent "hashV"

def sigDShape : List (String × Schema) :=
  [("mId", zUri platform), ("pars", arrayOfAtLeast 1 zString),
    ("hashM", optional (zDigestAlgorithm platform)),
      ("hashV", optional (arrayOfAtLeast 1 zBase64Url)),
        ("ctys", optional (arrayOfAtLeast 1 zString))]

def zSigD : Schema := refine (strictObject (sigDShape platform)) (isSigD platform)

/-! ## Unprotected headers -/

def zSignaturePolicyStore : Schema :=
  unionOf [strictObject [("sigPolDoc", zBase64Url), ("spDSpec", optional (zOid platform))],
    strictObject [("sigPolLocalURI", zUriReference), ("spDSpec", optional (zOid platform))]]

def zCertificateValue : Schema :=
  tagged [("x509Cert", zPkiObject platform), ("otherCert", zPkiObject platform)]

def zXVals : Schema := arrayOfAtLeast 1 (zCertificateValue platform)

def zRVals : Schema :=
  refine (strictObject [("crlVals", optional (arrayOfAtLeast 1 (zPkiObject platform))),
    ("ocspVals", optional (arrayOfAtLeast 1 (zPkiObject platform))),
    ("otherVals", optional (arrayOfAtLeast 1 record))]) isNonEmptyObject

def zValidationValues : Schema :=
  refine (strictObject [("xVals", optional (zXVals platform)),
    ("rVals", optional (zRVals platform))]) isNonEmptyObject

def zCertId : Schema :=
  strictObject [("digAlg", zDigestAlgorithm platform), ("digVal", zBase64Url),
    ("kid", optional zBase64), ("x5u", optional zUriReference)]

def zXRefs : Schema := arrayOfAtLeast 1 (zCertId platform)

def zCrlReference : Schema :=
  strictObject [("digAlg", zDigestAlgorithm platform), ("digVal", zBase64Url),
    ("crlId", optional (strictObject [("issuer", zBase64), ("issueTime", zDateTime platform),
      ("number", optional zNumber), ("uri", optional zUriReference)]))]

def zOcspReference : Schema :=
  strictObject [
    ("ocspId", strictObject [("responderId", tagged [("byName", zBase64), ("byKey", zBase64)]),
      ("producedAt", zDateTime platform), ("uri", optional zUriReference)]),
    ("digAlg", zDigestAlgorithm platform), ("digVal", zBase64Url)]

def zRRefs : Schema :=
  refine (strictObject [("crlRefs", optional (arrayOfAtLeast 1 (zCrlReference platform))),
    ("ocspRefs", optional (arrayOfAtLeast 1 (zOcspReference platform))),
    ("otherRefs", optional (arrayOfAtLeast 1 record))]) isNonEmptyObject

def zJwsSignature : Schema :=
  strictObject [("protected", optional zBase64Url), ("header", optional record),
    ("signature", zBase64Url)]

def zGeneralJws : Schema :=
  strictObject [("payload", optional zString), ("signatures", arrayOfAtLeast 1 zJwsSignature)]

def zFlattenedJws : Schema :=
  strictObject [("protected", optional zBase64Url), ("header", optional record),
    ("payload", optional zString), ("signature", zBase64Url)]

def zCanonicalizedTstContainer : Schema :=
  strictObject [("canonAlg", zUri platform), ("tstTokens", zTstTokens platform)]

def zNoCanonTstContainer : Schema :=
  strictObject [("canonAlg", optional zNever), ("tstTokens", zTstTokens platform)]

def sharedEtsiUInstances : List (String × Schema) :=
  [("sigPSt", zSignaturePolicyStore platform), ("sigTst", zSigTst platform),
    ("xVals", zXVals platform), ("rVals", zRVals platform), ("axVals", zXVals platform),
    ("arVals", zRVals platform), ("anyValData", zValidationValues platform),
    ("tstVD", zValidationValues platform), ("xRefs", zXRefs platform), ("rRefs", zRRefs platform),
    ("axRefs", zXRefs platform), ("arRefs", zRRefs platform),
    ("cSig", unionOf [zGeneralJws, zFlattenedJws, zString])]

/-- The kinds of unsigned properties, with the schema of the archive time-stamps among them. -/
def etsiUInstances (container : Schema) : List (String × Schema) :=
  sharedEtsiUInstances platform ++ [("arcTst", container), ("sigRTst", container),
    ("rfsTst", container)]

def zEtsiUClearInstance : Schema :=
  tagged (etsiUInstances platform (zCanonicalizedTstContainer platform))

def zEncodedEtsiUInstance : Schema :=
  tagged (etsiUInstances platform (zNoCanonTstContainer platform))

def isEncodedEtsiU (value : Value) : Bool :=
  (textsOf value).all fun item => match base64urlDecodeJson item with
    | .ok instance' => (zEncodedEtsiUInstance platform instance').isSome
    | .error _ => false

def zEncodedEtsiU : Schema := refine (arrayOfAtLeast 1 zBase64Url) (isEncodedEtsiU platform)

def zEtsiU : Schema :=
  unionOf [arrayOfAtLeast 1 (zEtsiUClearInstance platform), zEncodedEtsiU platform]

def zUnprotectedHeader : Schema := strictObject [("etsiU", zEtsiU platform)]

/-! ## Protected headers -/

def protectedHeaderShape : List (String × Schema) :=
  [("alg", optional (zSignAlg platform)), ("cty", optional zString), ("kid", optional zString),
    ("jku", optional (zUri platform)), ("jwk", optional record), ("x5u", optional (zUri platform)),
    ("x5c", optional (arrayOfAtLeast 1 zBase64)), ("x5t", optional zNever),
      ("x5t#S256", optional zBase64Url),
    ("typ", optional zString), ("crit", optional (arrayOfAtLeast 1 zText)),
      ("b64", optional zBoolean),
    ("iat", optional zInteger), ("sigT", optional (zClaimedSigningTime platform)),
      ("x5t#o", optional (zX5tO platform)),
    ("sigX5ts", optional (arrayOfAtLeast 2 (zCertificateDigest platform))),
    ("srCms", optional (arrayOfAtLeast 1 (zCommitmentReference platform))),
    ("sigPl", optional zSignatureProductionPlace), ("srAts", optional (zSignerAttributes platform)),
    ("adoTst", optional (zAdoTst platform)), ("sigPId", optional (zSignaturePolicy platform)),
    ("sigD", optional (zSigD platform)), ("etsiU", optional zNever)]

def zProtectedHeaderParams : Schema := looseObject (protectedHeaderShape platform)

end

def registeredJwsNames : List String :=
  ["alg", "jku", "jwk", "kid", "x5u", "x5c", "x5t", "x5t#S256", "typ", "cty", "crit"]

/-- The claimed signing time: `iat` for a signature that is generated now, else one of `iat` and
`sigT`. -/
def hasSigningTime (currentGeneration : Bool) (header : Value) : Bool :=
  if currentGeneration then !isUndefined (header.get "iat") && isUndefined (header.get "sigT")
  else isUndefined (header.get "iat") ≠ isUndefined (header.get "sigT")

/-- What is asked of a protected header besides its members and its signing time. -/
def isProtected (header : Value) : Bool :=
  let crit := textsOf (header.get "crit")
  (header.get "alg").truthy &&
    ["x5t#S256", "x5c", "x5t#o", "sigX5ts"].any (fun name => (header.get name).truthy) &&
    decide crit.Nodup && crit.all (fun parameter => parameter ∉ registeredJwsNames &&
      hasMember parameter header) &&
    (isUndefined (header.get "b64") || crit.contains "b64") &&
    (!(header.get "sigD").truthy || crit.contains "sigD") &&
    (!isText httpHeaders ((header.get "sigD").get "mId") || isFalse (header.get "b64"))

def zProtectedHeader (platform : Platform) : Schema :=
  refine (zProtectedHeaderParams platform) fun header => isProtected header &&
    hasSigningTime false header

def zProtectedHeaderForSigning (platform : Platform) : Schema :=
  refine (zProtectedHeaderParams platform) fun header => isProtected header &&
    hasSigningTime true header

/-! ## What is accepted is accepted again -/

section

variable (platform : Platform)

@[simp] theorem settles_zOid : Settles (zOid platform) :=
  .strictObject (by simp [keys]) (by simp [zUri, zString])

@[simp] theorem settles_zPkiObject : Settles (zPkiObject platform) :=
  .strictObject (by simp [keys]) (by simp [zUri, zString, zBase64])

@[simp] theorem settles_zTstToken : Settles (zTstToken platform) :=
  .strictObject (by simp [keys]) (by simp [zUri, zString, zBase64])

@[simp] theorem settles_zTstTokens : Settles (zTstTokens platform) :=
  .arrayOfAtLeast (settles_zTstToken platform) 1

@[simp] theorem settles_zSigTst : Settles (zSigTst platform) :=
  .strictObject (by simp [keys]) (by simp)

@[simp] theorem settles_zSignaturePolicyStore : Settles (zSignaturePolicyStore platform) := by
  refine .unionOf_cons (.strictObject (by simp [keys]) (by simp [zBase64Url])) (.unionOf_cons
    (.strictObject (by simp [keys]) (by simp [zUriReference])) settles_unionOf_nil
      fun _ _ h => nomatch h) ?_
  intro v w h
  rcases Option.or_eq_some_iff.mp h with hlocal | ⟨-, hnil⟩
  · obtain ⟨known, rfl, hmem⟩ :=
      mem_keys_strictObject (by simp [keys]) (.head _) textWhere_ne_undefined hlocal
    exact strictObject_of_other hmem (by simp [isOther, keys])
  · cases hnil

@[simp] theorem settles_zXVals : Settles (zXVals platform) :=
  .arrayOfAtLeast (.tagged (by simp [keys]) (by simp) (by simp [zPkiObject, strictObject])) 1

@[simp] theorem settles_zRVals : Settles (zRVals platform) :=
  .refine (.strictObject (by simp [keys]) (by simp)) _

@[simp] theorem settles_zValidationValues : Settles (zValidationValues platform) :=
  .refine (.strictObject (by simp [keys]) (by simp)) _

@[simp] theorem settles_zXRefs : Settles (zXRefs platform) :=
  .arrayOfAtLeast (.strictObject (by simp [keys])
    (by simp [zDigestAlgorithm, zBase64Url, zBase64, zUriReference])) 1

@[simp] theorem settles_zCrlReference : Settles (zCrlReference platform) := by
  have hcrlId : Settles (strictObject [("issuer", zBase64), ("issueTime", zDateTime platform),
      ("number", optional zNumber), ("uri", optional zUriReference)]) :=
    .strictObject (by simp [keys]) (by simp [zBase64, zDateTime, zUriReference])
  exact .strictObject (by simp [keys]) (by simp [zDigestAlgorithm, zBase64Url, hcrlId])

@[simp] theorem settles_zOcspReference : Settles (zOcspReference platform) := by
  have hresponderId : Settles (tagged [("byName", zBase64), ("byKey", zBase64)]) :=
    .tagged (by simp [keys]) (by simp [zBase64]) (by simp [zBase64, textWhere])
  have hocspId : Settles
      (strictObject [("responderId", tagged [("byName", zBase64), ("byKey", zBase64)]),
      ("producedAt", zDateTime platform), ("uri", optional zUriReference)]) :=
    .strictObject (by simp [keys]) (by simp [hresponderId, zDateTime, zUriReference])
  exact .strictObject (by simp [keys]) (by simp [zDigestAlgorithm, zBase64Url, hocspId])

@[simp] theorem settles_zRRefs : Settles (zRRefs platform) :=
  .refine (.strictObject (by simp [keys]) (by simp)) _

theorem settles_zFlattenedJws : Settles zFlattenedJws :=
  .strictObject (by simp [keys]) (by simp [zBase64Url, zString])

theorem settles_zGeneralJws : Settles zGeneralJws := by
  have hsignature : Settles zJwsSignature := .strictObject (by simp [keys]) (by simp [zBase64Url])
  exact .strictObject (by simp [keys]) (by simp [zString, hsignature])

/-- A signature within an unsigned property. -/
theorem settles_cSig : Settles (unionOf [zGeneralJws, zFlattenedJws, zString]) := by
  have htext : ∀ v w, unionOf [zString] v = some w → ∃ s, w = str s := by
    intro v w h
    rcases Option.or_eq_some_iff.mp h with htext | ⟨-, hnil⟩
    · unfold zString textWhere at htext
      split at htext
      · exact ⟨_, (Option.some.inj htext).symm⟩
      · cases htext
    · cases hnil
  refine .unionOf_cons settles_zGeneralJws (.unionOf_cons settles_zFlattenedJws
    (.unionOf_cons (settles_textWhere _) settles_unionOf_nil fun _ _ h => nomatch h) ?_) ?_
  · intro v w h
    obtain ⟨s, rfl⟩ := htext v w h
    rfl
  · intro v w h
    rcases Option.or_eq_some_iff.mp h with hflattened | ⟨-, h⟩
    · obtain ⟨known, rfl, hmem⟩ :=
        mem_keys_strictObject (by simp [keys]) (.tail _ (.tail _ (.tail _ (.head _))))
        textWhere_ne_undefined hflattened
      exact strictObject_of_other hmem (by simp [isOther, keys])
    · obtain ⟨s, rfl⟩ := htext v w h
      rfl

/-- The kinds of unsigned properties, whose archive time-stamps have a schema that settles. -/
theorem settles_etsiUInstances {container : Schema} (hs : Settles container)
    (habsent : container undefined = none) :
    Settles (tagged (etsiUInstances platform container)) := by
  refine .tagged (by simp [keys, etsiUInstances, sharedEtsiUInstances]) ?_ ?_
  · simp [etsiUInstances, sharedEtsiUInstances, hs, settles_cSig]
  · simp [etsiUInstances, sharedEtsiUInstances, habsent, zSignaturePolicyStore, unionOf,
      strictObject, zSigTst, zXVals, arrayOfAtLeast, zRVals, refine, zValidationValues, zXRefs,
      zRRefs, zGeneralJws, zFlattenedJws, zString, textWhere]

theorem tagged_str (options : List (String × Schema)) (s : String) :
    tagged options (str s) = none := by
  induction options with
  | nil => rfl
  | cons option options ih => exact ih

theorem settles_zEtsiU : Settles (zEtsiU platform) := by
  have hcontainer : Settles (zCanonicalizedTstContainer platform) :=
    .strictObject (by simp [keys]) (by simp [zUri])
  refine .unionOf_cons (.arrayOfAtLeast (settles_etsiUInstances platform hcontainer rfl) 1)
    (.unionOf_cons (.refine (.arrayOfAtLeast (settles_textWhere _) 1) _) settles_unionOf_nil
      fun _ _ h => by cases h) ?_
  intro v w h
  rcases Option.or_eq_some_iff.mp h with hencoded | ⟨-, hnil⟩
  · obtain ⟨harray, -⟩ := Option.filter_eq_some_iff.mp hencoded
    clear hencoded h
    unfold arrayOfAtLeast at harray
    split at harray
    · next items =>
      split_ifs at harray with hsize
      obtain ⟨items', hitems, rfl⟩ := Option.map_eq_some_iff.mp harray
      cases items with
      | nil => cases hsize
      | cons item items =>
        obtain ⟨item', rest, hitem, -, rfl⟩ := mapM_eq_some_cons.mp hitems
        obtain ⟨s, rfl⟩ : ∃ s, item' = str s := by
          unfold zBase64Url textWhere at hitem
          split at hitem
          · split_ifs at hitem
            exact ⟨_, (Option.some.inj hitem).symm⟩
          · cases hitem
        have hnone : (str s :: rest).mapM (zEtsiUClearInstance platform) = none := by
          rw [List.mapM_cons, zEtsiUClearInstance, tagged_str]
          rfl
        rw [arrayOfAtLeast, hnone, Option.map_none, ite_self]
    · cases harray
  · cases hnil

/-- An unprotected header that was accepted is accepted again. -/
theorem settles_zUnprotectedHeader : Settles (zUnprotectedHeader platform) :=
  .strictObject (by simp [keys]) (by simp [settles_zEtsiU])

/-! ## Distinct names -/

@[simp] theorem keepsDistinct_zOid : KeepsDistinct (zOid platform) :=
  .strictObject (by simp [keys]) (by simp [zUri, zString])

@[simp] theorem keepsDistinct_zPkiObject : KeepsDistinct (zPkiObject platform) :=
  .strictObject (by simp [keys]) (by simp [zUri, zString, zBase64])

@[simp] theorem keepsDistinct_zAdoTst : KeepsDistinct (zAdoTst platform) := by
  have htoken : KeepsDistinct (zTstToken platform) :=
    .strictObject (by simp [keys]) (by simp [zUri, zString, zBase64])
  exact .strictObject (by simp [keys]) (by simp [zTstTokens, htoken])

@[simp] theorem keepsDistinct_zCertificateDigest : KeepsDistinct (zCertificateDigest platform) :=
  .strictObject (by simp [keys]) (by simp [zDigestAlgorithm, zBase64Url])

@[simp] theorem keepsDistinct_zX5tO : KeepsDistinct (zX5tO platform) :=
  .refine (keepsDistinct_zCertificateDigest platform) _

@[simp] theorem keepsDistinct_zCommitmentReference :
    KeepsDistinct (zCommitmentReference platform) :=
  .strictObject (by simp [keys]) (by simp)

@[simp] theorem keepsDistinct_zSignatureProductionPlace : KeepsDistinct zSignatureProductionPlace :=
  .refine (.strictObject (by simp [keys]) (by simp [zString])) _

@[simp] theorem keepsDistinct_zSignerAttributes : KeepsDistinct (zSignerAttributes platform) := by
  have hqualified : KeepsDistinct zQualifiedArray :=
    .arrayOfAtLeast (.strictObject (by simp [keys]) (by simp [zText])) 1
  have hcertified : KeepsDistinct (zCertifiedAttribute platform) := .tagged (by simp)
  exact .refine (.strictObject (by simp [keys]) (by simp [hqualified, hcertified])) _

@[simp] theorem keepsDistinct_zSignaturePolicy : KeepsDistinct (zSignaturePolicy platform) := by
  have hreference : KeepsDistinct
      (strictObject [("organization", zString), ("noticeNumbers", arrayOfAtLeast 1 zInteger)]) :=
    .strictObject (by simp [keys]) (by simp [zString])
  have hnotice : KeepsDistinct zUserNotice :=
    .refine (.strictObject (by simp [keys]) (List.forall_mem_cons.mpr
      ⟨.optional hreference,
        List.forall_mem_singleton.mpr (.optional (keepsDistinct_textWhere _))⟩)) _
  have hqualifier : KeepsDistinct (zSignaturePolicyQualifier platform) :=
    .tagged (by simp [zUri, hnotice])
  exact .refine (.strictObject (by simp [keys])
    (by simp [zDigestAlgorithm, zBase64Url, hqualifier])) _

@[simp] theorem keepsDistinct_zSigD : KeepsDistinct (zSigD platform) :=
  .refine (.strictObject (by simp [keys, sigDShape])
    (by simp [sigDShape, zUri, zString, zDigestAlgorithm, zBase64Url])) _

theorem nodup_protectedHeaderShape : (keys (protectedHeaderShape platform)).Nodup := by
  simp [keys, protectedHeaderShape]

theorem keepsDistinct_zProtectedHeaderParams : KeepsDistinct (zProtectedHeaderParams platform) := by
  refine .looseObject (nodup_protectedHeaderShape platform) ?_
  simp [protectedHeaderShape, zSignAlg, zString, zUri, zBase64, zBase64Url, zText,
    zClaimedSigningTime]

end

end IdentityCommon.Jades
