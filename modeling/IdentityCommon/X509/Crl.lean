import IdentityCommon.Lib.Except
import Mathlib.Algebra.Order.Ring.Int

/-!
# Certificate revocation lists

The status of a certificate in a revocation list, and what a list has to say about the certificate
for that status to be right.

## Main definitions

- `CertificateList`, `parseCrl` — a list as it is decoded, and as it is parsed: an issuer of
  certificates is inherited along the entries
- `getRevocationStatus` — the status of a certificate
- `certificateIssuerAt`, `IsEntryFor` — the issuer whose certificates an entry is about, and the
  entries about a certificate
- `Clears` — what a list that clears a certificate has to be like
- `Sound` — a status that is good or revoked is right
- `Unchecked`, `Misread` — what the branches that clear or reject a certificate do not look at

## Main results

- `revokedCertificates_getElem?` — the issuer that an entry is left with by the ones before it
- `sound_iff` — the status is right exactly where nothing goes wrong that is not looked at
- `foreignList_good` — an indirect list that does not name the issuer

## Design notes

Serial numbers are the octets of an integer, in two's complement. Names are lists of attributes.
Lower case letters are given by a function, since those beyond ASCII are compared as well. A date
that is not valid has no time value.
-/

namespace IdentityCommon.X509

open IdentityCommon.Except

/-! ## Names -/

structure NameAttribute where
  type : String
  value : String
  deriving DecidableEq

structure DistinguishedName where
  attributes : List NameAttribute
  deriving DecidableEq

inductive GeneralName
  | directoryName (name : DistinguishedName)
  | uniformResourceIdentifier (uri : String)
  | other (kind : ℕ) (value : List UInt8)
  deriving DecidableEq

/-- White space, as `trim` and `\s` know it. -/
def isSpace (c : Char) : Bool :=
  c ∈ ['\t', '\n', '\x0b', '\x0c', '\r', ' ', '\u00a0', '\u1680', '\u2028', '\u2029', '\u202f',
    '\u205f', '\u3000', '\ufeff'] ∨
    ('\u2000' ≤ c ∧ c ≤ '\u200a')

/-- `value.trim().replace(/\s+/g, ' ').toLowerCase()`. -/
def normalize (toLowerCase : String → String) (value : String) : String :=
  toLowerCase (String.ofList ([' '].intercalate ((value.toList.splitOnP isSpace).filter (· ≠ []))))

def namesEqual (toLowerCase : String → String) (a b : DistinguishedName) : Bool :=
  a.attributes.length = b.attributes.length ∧
    (a.attributes.zip b.attributes).all fun (x, y) =>
      x.type = y.type ∧ normalize toLowerCase x.value = normalize toLowerCase y.value

def urisOf (names : List GeneralName) : List String :=
  names.filterMap fun name => match name with
    | .uniformResourceIdentifier uri => some uri
    | _ => none

def directoryNameOf (names : List GeneralName) : Option DistinguishedName :=
  names.findSome? fun name => match name with
    | .directoryName name => some name
    | _ => none

/-! ## Serial numbers -/

/-- The octets of a serial number. -/
structure SerialNumber where
  octets : List UInt8
  nonempty : octets ≠ []

instance : DecidableEq SerialNumber := fun a b =>
  decidable_of_iff (a.octets = b.octets) ⟨fun h => by cases a; cases b; cases h; rfl,
    congrArg SerialNumber.octets⟩

def hexDigit (n : ℕ) : Char := if n < 10 then Char.ofNat (48 + n) else Char.ofNat (87 + n)

/-- `toHex`. -/
def SerialNumber.hex (serial : SerialNumber) : List Char :=
  serial.octets.flatMap fun b => [hexDigit (b.toNat / 16), hexDigit (b.toNat % 16)]

/-- `hex.replace(/^(00)+(?=..)/, '')`; the digits are in lower case. -/
def normalizeSerial : List Char → List Char
  | '0' :: '0' :: c :: d :: rest => normalizeSerial (c :: d :: rest)
  | hex => hex

/-- The integer that the octets are. -/
def SerialNumber.value (serial : SerialNumber) : ℤ :=
  let n := serial.octets.foldl (fun (n : ℕ) b => n * 256 + b.toNat) 0
  if 128 ≤ (serial.octets.headD 0).toNat then n - 256 ^ serial.octets.length else n

/-! ## Lists -/

structure X509Extension where
  oid : String
  critical : Bool
  deriving DecidableEq

/-- An entry as it is decoded. -/
structure AsnRevokedCertificate where
  userCertificate : SerialNumber
  revocationDate : ℤ
  reason : Option ℕ := none
  invalidityDate : Option ℤ := none
  certificateIssuer : Option (List GeneralName) := none
  extensions : List X509Extension := []

def REASON_BY_CODE : List (ℕ × String) :=
  [(0, "unspecified"), (1, "keyCompromise"), (2, "cACompromise"), (3, "affiliationChanged"),
    (4, "superseded"), (5, "cessationOfOperation"), (6, "certificateHold"), (8, "removeFromCRL"),
    (9, "privilegeWithdrawn"), (10, "aACompromise")]

structure RevokedCertificate where
  serialNumber : SerialNumber
  revocationDate : ℤ
  reason : Option String
  invalidityDate : Option ℤ
  certificateIssuer : Option DistinguishedName
  extensions : List X509Extension

structure IssuingDistributionPoint where
  /-- The names of the distribution point, if there is one. -/
  distributionPoint : Option (List GeneralName) := none
  onlyContainsUserCerts : Bool := false
  onlyContainsCACerts : Bool := false
  onlyContainsAttributeCerts : Bool := false
  indirectCRL : Bool := false
  onlySomeReasons : Option (List String) := none

def IssuingDistributionPoint.distributionPointUris (idp : IssuingDistributionPoint) : List String :=
  urisOf (idp.distributionPoint.getD [])

/-- What is decoded of a list. -/
structure CertificateList where
  issuer : DistinguishedName
  thisUpdate : ℤ
  nextUpdate : Option ℤ := none
  deltaCrlIndicator : Option ℕ := none
  authorityKeyIdentifier : Option String := none
  issuingDistributionPoint : Option IssuingDistributionPoint := none
  revokedCertificates : List AsnRevokedCertificate := []
  extensions : List X509Extension := []

structure Crl where
  issuer : DistinguishedName
  thisUpdate : ℤ
  nextUpdate : Option ℤ
  deltaCrlIndicator : Option ℕ
  authorityKeyIdentifier : Option String
  issuingDistributionPoint : Option IssuingDistributionPoint
  revokedCertificates : List RevokedCertificate
  extensions : List X509Extension

/-- An entry, with the certificate issuer it is about. -/
def AsnRevokedCertificate.toRevoked (entry : AsnRevokedCertificate)
    (certificateIssuer : Option DistinguishedName) : RevokedCertificate where
  serialNumber := entry.userCertificate
  revocationDate := entry.revocationDate
  reason := entry.reason.bind fun code => REASON_BY_CODE.lookup code
  invalidityDate := entry.invalidityDate
  certificateIssuer := certificateIssuer
  extensions := entry.extensions

/-- The entries, with the certificate issuer that the ones before them leave. -/
def toRevokedCertificates : Option DistinguishedName → List AsnRevokedCertificate →
    List RevokedCertificate
  | _, [] => []
  | certificateIssuer, entry :: entries =>
    let certificateIssuer := match entry.certificateIssuer with
      | some issuer => directoryNameOf issuer
      | none => certificateIssuer
    entry.toRevoked certificateIssuer :: toRevokedCertificates certificateIssuer entries

def parseCrl (list : CertificateList) : Crl where
  issuer := list.issuer
  thisUpdate := list.thisUpdate
  nextUpdate := list.nextUpdate
  deltaCrlIndicator := list.deltaCrlIndicator
  authorityKeyIdentifier := list.authorityKeyIdentifier
  issuingDistributionPoint := list.issuingDistributionPoint
  revokedCertificates := toRevokedCertificates none list.revokedCertificates
  extensions := list.extensions

/-- The members of a certificate that are compared with a list. -/
structure Certificate where
  serialNumber : SerialNumber
  issuer : DistinguishedName
  authorityKeyIdentifier : Option String := none
  cA : Option Bool := none
  /-- The names of its distribution points. -/
  distributionPoints : List GeneralName := []

def Certificate.crlDistributionPoints (certificate : Certificate) : List String :=
  urisOf certificate.distributionPoints

/-! ## The status of a certificate -/

def KNOWN_CRL_EXTENSIONS : List String :=
  ["2.5.29.35", "2.5.29.18", "2.5.29.20", "2.5.29.27", "2.5.29.28", "2.5.29.46",
    "1.3.6.1.5.5.7.1.1"]

def KNOWN_ENTRY_EXTENSIONS : List String := ["2.5.29.21", "2.5.29.24", "2.5.29.29", "2.5.29.23"]

/-- The first critical extension that is not known. -/
def unsupportedExtension (known : List String) (extensions : List X509Extension) :
    Option X509Extension :=
  extensions.find? fun e => e.critical ∧ e.oid ∉ known

inductive Message
  | text (s : String)
  | notBefore (thisUpdate : ℤ)
  | expired (nextUpdate : ℤ)
  deriving DecidableEq

inductive RevocationStatus
  | good
  | revoked (revocationDate : ℤ) (reason : Option String) (invalidityDate : Option ℤ)
  | unknown (reason : String) (message : Message)
  deriving DecidableEq

def unknown {α : Type} (reason message : String) : Except RevocationStatus α :=
  .error (.unknown reason (.text message))

/-- A string that a condition in the source takes for true. -/
def present (s : Option String) : Option String := s.filter (· ≠ "")

/-- The time of the check: none at all, or the time value of a date, if it has one. -/
inductive Now
  | skip
  | at (time : Option ℤ)

variable (toLowerCase : String → String)

def checkExtensions (crl : Crl) : Except RevocationStatus Unit :=
  if crl.deltaCrlIndicator.isSome then
    unknown "delta_crl" "Delta CRLs can only be used together with their base CRL"
  else match unsupportedExtension KNOWN_CRL_EXTENSIONS crl.extensions with
    | some e => unknown "unsupported_critical_extension"
        ("Unsupported critical CRL extension " ++ e.oid)
    | none => .ok ()

def indirect (crl : Crl) : Bool :=
  crl.issuingDistributionPoint.any IssuingDistributionPoint.indirectCRL

def checkIssuer (certificate : Certificate) (crl : Crl) : Except RevocationStatus Unit :=
  if indirect crl then .ok ()
  else if !namesEqual toLowerCase crl.issuer certificate.issuer then
    unknown "issuer_mismatch" "The CRL is not issued by the certificate issuer"
  else match present crl.authorityKeyIdentifier, present certificate.authorityKeyIdentifier with
    | some crlKey, some certificateKey =>
      if crlKey ≠ certificateKey then
        unknown "issuer_mismatch" "The CRL is signed with a different key than the certificate"
      else .ok ()
    | _, _ => .ok ()

/-- A comparison with a date that is not valid is false. -/
def checkTime (crl : Crl) : Now → Except RevocationStatus Unit
  | .skip => .ok ()
  | .at none => .ok ()
  | .at (some now) =>
    if now < crl.thisUpdate then .error (.unknown "crl_not_yet_valid" (.notBefore crl.thisUpdate))
    else match crl.nextUpdate with
      | some nextUpdate =>
        if now > nextUpdate then .error (.unknown "crl_expired" (.expired nextUpdate)) else .ok ()
      | none => .ok ()

def checkScope (certificate : Certificate) (crl : Crl) : Except RevocationStatus Unit :=
  match crl.issuingDistributionPoint with
  | none => .ok ()
  | some idp =>
    let isCa := certificate.cA = some true
    if idp.onlyContainsAttributeCerts then
      unknown "out_of_scope" "The CRL only covers attribute certificates"
    else if idp.onlyContainsCACerts ∧
    ¬ isCa then unknown "out_of_scope" "The CRL only covers CA certificates"
    else if idp.onlyContainsUserCerts ∧
    isCa then unknown "out_of_scope" "The CRL only covers end-entity certificates"
    else if idp.distributionPointUris ≠ [] ∧
        ¬ idp.distributionPointUris.any fun uri => uri ∈ certificate.crlDistributionPoints then
      unknown "out_of_scope" "The CRL distribution point does not match the certificate"
    else .ok ()

/-- The entry for a certificate, as it is looked up. -/
def entryMatches (certificate : Certificate) (crl : Crl) (e : RevokedCertificate) : Bool :=
  normalizeSerial e.serialNumber.hex = normalizeSerial certificate.serialNumber.hex ∧
    (indirect crl = false ∨
      namesEqual toLowerCase (e.certificateIssuer.getD crl.issuer) certificate.issuer)

def statusOfEntry (crl : Crl) : Option RevokedCertificate → Except RevocationStatus RevocationStatus
  | some entry =>
    match unsupportedExtension KNOWN_ENTRY_EXTENSIONS entry.extensions with
    | some e => unknown "unsupported_critical_extension"
        ("Unsupported critical CRL entry extension " ++ e.oid)
    | none =>
      if entry.reason = some "removeFromCRL" then .ok .good
      else .ok (.revoked entry.revocationDate entry.reason entry.invalidityDate)
  | none =>
    match crl.issuingDistributionPoint.bind IssuingDistributionPoint.onlySomeReasons with
    | some reasons => unknown "out_of_scope" ("The CRL only covers the reasons " ++
        ", ".intercalate reasons)
    | none => .ok .good

/-- The checks before an entry is looked up. -/
def checks (certificate : Certificate) (crl : Crl) (now : Now) : Except RevocationStatus Unit := do
  checkExtensions crl
  checkIssuer toLowerCase certificate crl
  checkTime crl now
  checkScope certificate crl

def getRevocationStatus (certificate : Certificate) (crl : Crl) (now : Now) : RevocationStatus :=
  let result := do
    checks toLowerCase certificate crl now
    statusOfEntry crl (crl.revokedCertificates.find? (entryMatches toLowerCase certificate crl))
  match result with
  | .ok status => status
  | .error status => status

/-! ## What a status promises -/

/-- The names of the issuer that the entry at `i` is left with: its own or those of the last one
before it that has some. -/
def inheritedIssuer (list : CertificateList) (i : ℕ) : Option (List GeneralName) :=
  (list.revokedCertificates.take (i + 1)).reverse.findSome? AsnRevokedCertificate.certificateIssuer

/-- The issuer whose certificates the entry at `i` is about: the one it is left with, if that has a
directory name, else the issuer of the list. -/
def certificateIssuerAt (list : CertificateList) (i : ℕ) : Option DistinguishedName :=
  match inheritedIssuer list i with
  | some names => directoryNameOf names
  | none => some list.issuer

/-- An entry for a certificate: with its serial number, about the certificates of its issuer. -/
def IsEntryFor (list : CertificateList) (certificate : Certificate) (i : ℕ)
    (e : AsnRevokedCertificate) : Prop :=
  list.revokedCertificates[i]? = some e ∧ e.userCertificate.value = certificate.serialNumber.value ∧
    ∃ issuer, certificateIssuerAt list i = some issuer ∧
    namesEqual toLowerCase issuer certificate.issuer = true

def AsnRevokedCertificate.isRemoved (e : AsnRevokedCertificate) : Prop :=
  (e.reason.bind fun code => REASON_BY_CODE.lookup code) = some "removeFromCRL"

/-- The list is issued by an issuer, or is an indirect list that names it. -/
def NamesIssuer (list : CertificateList) (issuer : DistinguishedName) : Prop :=
  namesEqual toLowerCase list.issuer issuer = true ∨
    (list.issuingDistributionPoint.any IssuingDistributionPoint.indirectCRL = true ∧
      ∃ e ∈ list.revokedCertificates, ∃ names name, e.certificateIssuer = some names ∧
        directoryNameOf names = some name ∧ namesEqual toLowerCase name issuer = true)

def Now.Current (list : CertificateList) : Now → Prop
  | .skip => True
  | .at time => ∃ now, time = some now ∧ list.thisUpdate ≤ now ∧
      ∀ nextUpdate, list.nextUpdate = some nextUpdate → now ≤ nextUpdate

/-- The type of a certificate is one that the list is about. -/
def CoversType (idp : IssuingDistributionPoint) (certificate : Certificate) : Prop :=
  idp.onlyContainsAttributeCerts = false ∧
  (idp.onlyContainsCACerts = true → certificate.cA = some true) ∧
    (idp.onlyContainsUserCerts = true → certificate.cA ≠ some true)

/-- The distribution point of the list is one of the certificate, if it has one. -/
def CoversDistributionPoint (idp : IssuingDistributionPoint) (certificate : Certificate) : Prop :=
  ∀ names, idp.distributionPoint = some names →
  ∃ name ∈ names, name ∈ certificate.distributionPoints

def AllKnown (known : List String) (extensions : List X509Extension) : Prop :=
  ∀ e ∈ extensions, e.critical = true → e.oid ∈ known

/-- A list that clears a certificate. -/
structure Clears (list : CertificateList) (certificate : Certificate) (now : Now) : Prop where
  notDelta : list.deltaCrlIndicator = none
  current : now.Current list
  extensions : AllKnown KNOWN_CRL_EXTENSIONS list.extensions
  entryExtensions : ∀ e ∈ list.revokedCertificates, AllKnown KNOWN_ENTRY_EXTENSIONS e.extensions
  coversType : ∀ idp, list.issuingDistributionPoint = some idp → CoversType idp certificate
  coversDistributionPoint : ∀ idp, list.issuingDistributionPoint = some idp →
    CoversDistributionPoint idp certificate
  coversReasons : ∀ idp, list.issuingDistributionPoint = some idp → idp.onlySomeReasons = none
  namesIssuer : NamesIssuer toLowerCase list certificate.issuer
  notRevoked : ∀ i e, IsEntryFor toLowerCase list certificate i e → e.isRemoved

/-- A status that is good or revoked is right. -/
structure Sound (list : CertificateList) (certificate : Certificate) (now : Now) : Prop where
  good : getRevocationStatus toLowerCase certificate (parseCrl list) now = .good →
    Clears toLowerCase list certificate now
  revoked : ∀ revocationDate reason invalidityDate,
    getRevocationStatus toLowerCase certificate (parseCrl list) now =
      .revoked revocationDate reason invalidityDate →
    ∃ i e, IsEntryFor toLowerCase list certificate i e

/-! ## The branches -/

/-- Where the entry is that is looked up. -/
def matching (list : CertificateList) (certificate : Certificate) : Option ℕ :=
  (parseCrl list).revokedCertificates.findIdx?
    (entryMatches toLowerCase certificate (parseCrl list))

/-- The entry that is looked up, where the checks before it succeed and its own extensions are
known. -/
structure LooksUp (list : CertificateList) (certificate : Certificate) (now : Now) (i : ℕ)
    (e : AsnRevokedCertificate) : Prop where
  checks : checks toLowerCase certificate (parseCrl list) now = .ok ()
  matching : matching toLowerCase list certificate = some i
  entry : list.revokedCertificates[i]? = some e
  extensions : AllKnown KNOWN_ENTRY_EXTENSIONS e.extensions

/-- The branch that finds no entry, or one that removes the certificate from the list. -/
def Passes (list : CertificateList) (certificate : Certificate) (now : Now) : Prop :=
  (checks toLowerCase certificate (parseCrl list) now = .ok () ∧
    matching toLowerCase list certificate = none ∧
    list.issuingDistributionPoint.bind IssuingDistributionPoint.onlySomeReasons = none) ∨
    ∃ i e, LooksUp toLowerCase list certificate now i e ∧ e.isRemoved

/-- What the branch that clears a certificate does not look at. -/
structure Unchecked (list : CertificateList) (certificate : Certificate) (now : Now) : Prop where
  /-- The date of the check is valid. -/
  validDate : ∀ time : Option ℤ, now = .at time → time.isSome
  /-- The entries that are not looked up have no critical extension that is not known. -/
  skipped : ∀ (i : ℕ) (e : AsnRevokedCertificate), list.revokedCertificates[i]? = some e →
    matching toLowerCase list certificate ≠ some i → AllKnown KNOWN_ENTRY_EXTENSIONS e.extensions
  /-- A distribution point without a URI has a name of the certificate's. -/
  distributionPoint : ∀ idp, list.issuingDistributionPoint = some idp →
    idp.distributionPointUris = [] →
    CoversDistributionPoint idp certificate
  /-- A list that removes the certificate is not for some reasons only. -/
  reasons : matching toLowerCase list certificate ≠ none →
    ∀ idp, list.issuingDistributionPoint = some idp → idp.onlySomeReasons = none
  /-- An indirect list without an entry names the issuer. -/
  issuer : matching toLowerCase list certificate = none →
    list.issuingDistributionPoint.any IssuingDistributionPoint.indirectCRL = true →
    NamesIssuer toLowerCase list certificate.issuer
  /-- The same number with other digits only removes the certificate. -/
  digits : ∀ i e, IsEntryFor toLowerCase list certificate i e →
    normalizeSerial e.userCertificate.hex ≠ normalizeSerial certificate.serialNumber.hex →
    e.isRemoved
  /-- After an entry that removes the certificate there is no other one. -/
  duplicates : matching toLowerCase list certificate ≠ none →
    ∀ i e, IsEntryFor toLowerCase list certificate i e →
    normalizeSerial e.userCertificate.hex = normalizeSerial certificate.serialNumber.hex →
    e.isRemoved

/-- An entry that is looked up though it has another number with the same digits, or is about no
issuer, or in a list that is not indirect about another one. -/
def Misread (list : CertificateList) (certificate : Certificate) (i : ℕ)
    (e : AsnRevokedCertificate) : Prop :=
  e.userCertificate.value ≠ certificate.serialNumber.value ∨ certificateIssuerAt list i = none ∨
    (list.issuingDistributionPoint.any IssuingDistributionPoint.indirectCRL = false ∧
      ∃ issuer, certificateIssuerAt list i = some issuer ∧
        namesEqual toLowerCase issuer certificate.issuer = false)

variable {toLowerCase}

theorem unsupportedExtension_eq_none {known : List String} {extensions : List X509Extension} :
    unsupportedExtension known extensions = none ↔ AllKnown known extensions := by
  rw [unsupportedExtension, List.find?_eq_none]
  simp only [AllKnown, decide_eq_true_eq, not_and, not_not]

theorem checkExtensions_eq_ok {crl : Crl} :
    checkExtensions crl = .ok () ↔ crl.deltaCrlIndicator = none ∧
    AllKnown KNOWN_CRL_EXTENSIONS crl.extensions := by
  rw [checkExtensions, ← unsupportedExtension_eq_none]
  cases hdelta : crl.deltaCrlIndicator with
  | some n => simp [unknown]
  | none => cases unsupportedExtension KNOWN_CRL_EXTENSIONS crl.extensions <;> simp [unknown]

theorem namesEqual_of_checkIssuer {certificate : Certificate} {crl : Crl}
    (h : checkIssuer toLowerCase certificate crl = .ok ()) (hdirect : indirect crl = false) :
    namesEqual toLowerCase crl.issuer certificate.issuer = true := by
  rw [checkIssuer, hdirect, if_neg (by decide)] at h
  split at h
  · cases h
  · next hequal => simpa using hequal

theorem current_of_checkTime {list : CertificateList} {now : Now}
    (h : checkTime (parseCrl list) now = .ok ()) (hvalid : ∀ time, now = .at time → time.isSome) :
    now.Current list := by
  cases now with
  | skip => trivial
  | «at» time =>
    obtain ⟨now, rfl⟩ := Option.isSome_iff_exists.mp (hvalid time rfl)
    rw [checkTime] at h
    split_ifs at h with hbefore
    refine ⟨now, rfl, not_lt.mp hbefore, fun nextUpdate hnext => ?_⟩
    have hparsed : (parseCrl list).nextUpdate = some nextUpdate := hnext
    rw [hparsed] at h
    dsimp only at h
    split_ifs at h with hafter
    exact not_lt.mp hafter

theorem mem_urisOf {names : List GeneralName} {uri : String} :
    uri ∈ urisOf names ↔ .uniformResourceIdentifier uri ∈ names := by
  rw [urisOf, List.mem_filterMap]
  constructor
  · rintro ⟨name, hname, heq⟩
    cases name with
    | uniformResourceIdentifier uri' =>
      cases heq
      exact hname
    | directoryName name => cases heq
    | other kind value => cases heq
  · intro h
    exact ⟨_, h, rfl⟩

theorem covers_of_checkScope {list : CertificateList} {certificate : Certificate}
    {idp : IssuingDistributionPoint} (h : checkScope certificate (parseCrl list) = .ok ())
    (hidp : list.issuingDistributionPoint = some idp) :
    CoversType idp certificate ∧
    (idp.distributionPointUris ≠ [] → CoversDistributionPoint idp certificate) := by
  have hparsed : (parseCrl list).issuingDistributionPoint = some idp := hidp
  rw [checkScope, hparsed] at h
  dsimp only at h
  split_ifs at h with hattribute hca huser huris
  · cases h
  · cases h
  · cases h
  · cases h
  · refine ⟨⟨by simpa using hattribute, fun honly => ?_, fun honly hca => huser ⟨honly, hca⟩⟩,
      fun hne names hnames => ?_⟩
    · by_contra hne
      exact hca ⟨honly, hne⟩
    · -- A URI of the list that the certificate has is a name that both have.
      have hany : (idp.distributionPointUris.any fun uri =>
          uri ∈ certificate.crlDistributionPoints) = true := by
        by_contra hany
        exact huris ⟨hne, hany⟩
      obtain ⟨uri, huri, hmem⟩ := List.any_eq_true.mp hany
      rw [IssuingDistributionPoint.distributionPointUris, hnames,
        Option.getD_some, mem_urisOf] at huri
      exact ⟨_, huri, mem_urisOf.mp (of_decide_eq_true hmem)⟩

theorem checks_eq_ok {certificate : Certificate} {crl : Crl} {now : Now}
    (h : checks toLowerCase certificate crl now = .ok ()) :
    checkExtensions crl = .ok () ∧ checkIssuer toLowerCase certificate crl = .ok () ∧
    checkTime crl now = .ok () ∧
      checkScope certificate crl = .ok () := by
  obtain ⟨_, hextensions, h⟩ := bind_eq_ok.mp h
  obtain ⟨_, hissuer, h⟩ := bind_eq_ok.mp h
  obtain ⟨_, htime, hscope⟩ := bind_eq_ok.mp h
  exact ⟨hextensions, hissuer, htime, hscope⟩

/-! ## The entries -/

theorem toRevokedCertificates_getElem? (start : Option DistinguishedName)
    (entries : List AsnRevokedCertificate) (i : ℕ) :
    (toRevokedCertificates start entries)[i]? = entries[i]?.map fun e => e.toRevoked
      (match (entries.take (i + 1)).reverse.findSome? AsnRevokedCertificate.certificateIssuer with
        | some names => directoryNameOf names
        | none => start) := by
  induction entries generalizing start i with
  | nil => rfl
  | cons entry entries ih =>
    cases i with
    | zero => cases h : entry.certificateIssuer <;> simp [toRevokedCertificates, h]
    | succ i =>
      rw [toRevokedCertificates, List.getElem?_cons_succ, List.getElem?_cons_succ, ih,
        List.take_succ_cons, List.reverse_cons, List.findSome?_append]
      -- The first entry counts where none after it has an issuer.
      cases hlater : (entries.take (i + 1)).reverse.findSome?
        AsnRevokedCertificate.certificateIssuer with
      | some names => rfl
      | none => cases h : entry.certificateIssuer <;> simp [h]

theorem revokedCertificates_getElem? (list : CertificateList) (i : ℕ) :
    (parseCrl list).revokedCertificates[i]? =
      list.revokedCertificates[i]?.map fun e => e.toRevoked
        ((inheritedIssuer list i).bind directoryNameOf) := by
  have h := toRevokedCertificates_getElem? none list.revokedCertificates i
  rw [show (parseCrl list).revokedCertificates =
    toRevokedCertificates none list.revokedCertificates from rfl, h, inheritedIssuer]
  cases (list.revokedCertificates.take (i + 1)).reverse.findSome?
    AsnRevokedCertificate.certificateIssuer <;> rfl

/-- An issuer that an entry is about is the one that it is compared with. -/
theorem getD_of_certificateIssuerAt {list : CertificateList} {i : ℕ} {issuer : DistinguishedName}
    (h : certificateIssuerAt list i = some issuer) :
    ((inheritedIssuer list i).bind directoryNameOf).getD list.issuer = issuer := by
  rw [certificateIssuerAt] at h
  cases hnames : inheritedIssuer list i with
  | some names =>
    rw [hnames] at h
    rw [Option.bind_some, show directoryNameOf names = some issuer from h, Option.getD_some]
  | none =>
    rw [hnames] at h
    exact Option.some.inj h

theorem entryMatches_toRevoked {list : CertificateList} {certificate : Certificate}
    {e : AsnRevokedCertificate} {issuer : Option DistinguishedName} :
    entryMatches toLowerCase certificate (parseCrl list) (e.toRevoked issuer) = true ↔
      normalizeSerial e.userCertificate.hex = normalizeSerial certificate.serialNumber.hex ∧
        (list.issuingDistributionPoint.any IssuingDistributionPoint.indirectCRL = false ∨
          namesEqual toLowerCase (issuer.getD list.issuer) certificate.issuer = true) := by
  rw [entryMatches, decide_eq_true_eq]
  rfl

theorem matching_eq_some {list : CertificateList} {certificate : Certificate} {i : ℕ}
    {e : AsnRevokedCertificate} (h : matching toLowerCase list certificate = some i)
    (he : list.revokedCertificates[i]? = some e) :
    entryMatches toLowerCase certificate (parseCrl list)
      (e.toRevoked ((inheritedIssuer list i).bind directoryNameOf)) = true := by
  obtain ⟨hlt, hmatch, _⟩ := List.findIdx?_eq_some_iff_getElem.mp h
  have hget := List.getElem?_eq_getElem hlt
  rw [revokedCertificates_getElem?, he] at hget
  rw [← Option.some.inj hget] at hmatch
  exact hmatch

/-- The entry that is looked up is one of the list. -/
theorem exists_of_matching {list : CertificateList} {certificate : Certificate} {i : ℕ}
    (h : matching toLowerCase list certificate = some i) :
    ∃ e, list.revokedCertificates[i]? = some e := by
  obtain ⟨hlt, _, _⟩ := List.findIdx?_eq_some_iff_getElem.mp h
  have hget := List.getElem?_eq_getElem hlt
  rw [revokedCertificates_getElem?] at hget
  obtain ⟨e, he, _⟩ := Option.map_eq_some_iff.mp hget
  exact ⟨e, he⟩

/-- An entry for the certificate with its digits is one that is looked for. -/
theorem matching_ne_none_of_isEntryFor {list : CertificateList} {certificate : Certificate} {i : ℕ}
    {e : AsnRevokedCertificate} (h : IsEntryFor toLowerCase list certificate i e)
    (hdigits : normalizeSerial e.userCertificate.hex =
      normalizeSerial certificate.serialNumber.hex) :
    matching toLowerCase list certificate ≠ none := by
  obtain ⟨he, _, issuer, hissuer, hequal⟩ := h
  intro hnone
  have hparsed : (parseCrl list).revokedCertificates[i]? =
      some (e.toRevoked ((inheritedIssuer list i).bind directoryNameOf)) := by
    rw [revokedCertificates_getElem?, he, Option.map_some]
  have hno := List.findIdx?_eq_none_iff.mp hnone _ (List.mem_of_getElem? hparsed)
  have hyes := entryMatches_toRevoked.mpr
    ⟨hdigits, .inr (by rw [getD_of_certificateIssuerAt hissuer]; exact hequal)⟩
  rw [hyes] at hno
  cases hno

/-- An entry that is looked up is for the certificate, unless it is misread. -/
theorem isEntryFor_or_misread {list : CertificateList} {certificate : Certificate} {i : ℕ}
    {e : AsnRevokedCertificate} (h : matching toLowerCase list certificate = some i)
    (he : list.revokedCertificates[i]? = some e) :
    IsEntryFor toLowerCase list certificate i e ∨ Misread toLowerCase list certificate i e := by
  by_cases hvalue : e.userCertificate.value = certificate.serialNumber.value
  · cases hissuer : certificateIssuerAt list i with
    | none => exact .inr (.inr (.inl hissuer))
    | some issuer =>
      by_cases hequal : namesEqual toLowerCase issuer certificate.issuer = true
      · exact .inl ⟨he, hvalue, issuer, hissuer, hequal⟩
      · rcases (entryMatches_toRevoked.mp (matching_eq_some h he)).2 with hdirect | hname
        · exact .inr (.inr (.inr ⟨hdirect, issuer, hissuer, by simpa using hequal⟩))
        · rw [getD_of_certificateIssuerAt hissuer] at hname
          exact absurd hname hequal
  · exact .inr (.inl hvalue)

/-- An indirect list names the issuer of a certificate that it has an entry for. -/
theorem namesIssuer_of_matching {list : CertificateList} {certificate : Certificate} {i : ℕ}
    (h : matching toLowerCase list certificate = some i)
    (hindirect : list.issuingDistributionPoint.any IssuingDistributionPoint.indirectCRL = true) :
    NamesIssuer toLowerCase list certificate.issuer := by
  obtain ⟨e, he⟩ := exists_of_matching h
  rcases (entryMatches_toRevoked.mp (matching_eq_some h he)).2 with hdirect | hname
  · rw [hindirect] at hdirect
    cases hdirect
  · cases hnames : (inheritedIssuer list i).bind directoryNameOf with
    | none =>
      rw [hnames] at hname
      exact .inl hname
    | some name =>
      rw [hnames] at hname
      obtain ⟨names, hinherited, hdirectory⟩ := Option.bind_eq_some_iff.mp hnames
      obtain ⟨before, hbefore, hissuer⟩ := List.exists_of_findSome?_eq_some hinherited
      exact .inr ⟨hindirect, before, List.mem_of_mem_take (List.mem_reverse.mp hbefore),
        names, name, hissuer, hdirectory, hname⟩

/-! ## The status -/

theorem getRevocationStatus_of_checks_error {list : CertificateList}
    {certificate : Certificate} {now : Now} {status : RevocationStatus}
    (h : checks toLowerCase certificate (parseCrl list) now = .error status) :
    getRevocationStatus toLowerCase certificate (parseCrl list) now = status := by
  rw [getRevocationStatus, h]
  rfl

theorem getRevocationStatus_of_checks {list : CertificateList}
    {certificate : Certificate} {now : Now}
    (h : checks toLowerCase certificate (parseCrl list) now = .ok ()) :
    getRevocationStatus toLowerCase certificate (parseCrl list) now =
      match statusOfEntry (parseCrl list) ((matching toLowerCase list certificate).bind fun i =>
        (list.revokedCertificates[i]?).map fun e => e.toRevoked
          ((inheritedIssuer list i).bind directoryNameOf)) with
      | .ok status => status
      | .error status => status := by
  rw [getRevocationStatus, h, ok_bind, List.find?_eq_bind_findIdx?_getElem?]
  simp only [revokedCertificates_getElem?]
  rfl

/-- A check that fails leaves the status open. -/
theorem isUnknown_of_checks {certificate : Certificate} {crl : Crl} {now : Now}
    {status : RevocationStatus} (h : checks toLowerCase certificate crl now = .error status) :
    ∃ reason message, status = .unknown reason message := by
  have hunknown {reason message : String}
      (h : (unknown reason message : Except RevocationStatus Unit) = .error status) :
      ∃ reason message, status = .unknown reason message := by
    cases h
    exact ⟨_, _, rfl⟩
  rcases bind_eq_error.mp h with h | ⟨_, -, h⟩
  · rw [checkExtensions] at h
    split at h
    · exact hunknown h
    · split at h
      · exact hunknown h
      · cases h
  rcases bind_eq_error.mp h with h | ⟨_, -, h⟩
  · rw [checkIssuer] at h
    split_ifs at h
    · exact hunknown h
    · split at h
      · split_ifs at h
        exact hunknown h
      · cases h
  rcases bind_eq_error.mp h with h | ⟨_, -, h⟩
  · unfold checkTime at h
    split at h
    · cases h
    · cases h
    · split_ifs at h
      · cases h
        exact ⟨_, _, rfl⟩
      · split at h
        · split_ifs at h
          cases h
          exact ⟨_, _, rfl⟩
        · cases h
  · rw [checkScope] at h
    split at h
    · cases h
    · dsimp only at h
      split_ifs at h <;> exact hunknown h

theorem getRevocationStatus_of_none {list : CertificateList} {certificate : Certificate} {now : Now}
    (h : checks toLowerCase certificate (parseCrl list) now = .ok ())
    (hm : matching toLowerCase list certificate = none) :
    getRevocationStatus toLowerCase certificate (parseCrl list) now =
      match list.issuingDistributionPoint.bind IssuingDistributionPoint.onlySomeReasons with
      | some reasons =>
        .unknown "out_of_scope"
          (.text ("The CRL only covers the reasons " ++ ", ".intercalate reasons))
      | none => .good := by
  rw [getRevocationStatus_of_checks h, hm, Option.bind_none, statusOfEntry,
    show (parseCrl list).issuingDistributionPoint = list.issuingDistributionPoint from rfl]
  cases list.issuingDistributionPoint.bind IssuingDistributionPoint.onlySomeReasons <;> rfl

theorem getRevocationStatus_of_some {list : CertificateList} {certificate : Certificate}
    {now : Now} {i : ℕ} {e : AsnRevokedCertificate}
    (h : checks toLowerCase certificate (parseCrl list) now = .ok ())
    (hm : matching toLowerCase list certificate = some i)
    (he : list.revokedCertificates[i]? = some e) :
    getRevocationStatus toLowerCase certificate (parseCrl list) now =
      match unsupportedExtension KNOWN_ENTRY_EXTENSIONS e.extensions with
      | some x => .unknown "unsupported_critical_extension"
          (.text ("Unsupported critical CRL entry extension " ++ x.oid))
      | none =>
        let reason := e.reason.bind fun code => REASON_BY_CODE.lookup code
        if reason = some "removeFromCRL" then .good
        else .revoked e.revocationDate reason e.invalidityDate := by
  rw [getRevocationStatus_of_checks h, hm, Option.bind_some, he, Option.map_some, statusOfEntry,
    show ∀ issuer, (e.toRevoked issuer).extensions = e.extensions from fun _ => rfl]
  cases unsupportedExtension KNOWN_ENTRY_EXTENSIONS e.extensions with
  | some x => rfl
  | none =>
    dsimp only
    by_cases hremoved : (e.reason.bind fun code => REASON_BY_CODE.lookup code) =
      some "removeFromCRL"
    · have hreason : (e.toRevoked ((inheritedIssuer list i).bind directoryNameOf)).reason =
          some "removeFromCRL" :=
        hremoved
      rw [if_pos hremoved, if_pos hreason]
    · have hreason : (e.toRevoked ((inheritedIssuer list i).bind directoryNameOf)).reason ≠
          some "removeFromCRL" :=
        hremoved
      rw [if_neg hremoved, if_neg hreason]
      rfl

theorem getRevocationStatus_eq_good {list : CertificateList}
    {certificate : Certificate} {now : Now} :
    getRevocationStatus toLowerCase certificate (parseCrl list) now = .good ↔
      Passes toLowerCase list certificate now := by
  cases hc : checks toLowerCase certificate (parseCrl list) now with
  | error status =>
    obtain ⟨reason, message, rfl⟩ := isUnknown_of_checks hc
    rw [getRevocationStatus_of_checks_error hc]
    constructor
    · exact nofun
    · rintro (⟨h, _⟩ | ⟨i, e, h, _⟩)
      · cases hc.symm.trans h
      · cases hc.symm.trans h.checks
  | ok _ =>
    cases hm : matching toLowerCase list certificate with
    | none =>
      rw [getRevocationStatus_of_none hc hm]
      constructor
      · intro h
        split at h
        · cases h
        · next hall => exact .inl ⟨hc, hm, hall⟩
      · rintro (⟨_, _, h⟩ | ⟨i, e, h, _⟩)
        · rw [h]
        · cases hm.symm.trans h.matching
    | some i =>
      obtain ⟨e, he⟩ := exists_of_matching hm
      rw [getRevocationStatus_of_some hc hm he]
      constructor
      · intro h
        split at h
        · cases h
        · next hknown =>
          dsimp only at h
          split_ifs at h with hremoved
          exact .inr ⟨i, e, ⟨hc, hm, he, unsupportedExtension_eq_none.mp hknown⟩, hremoved⟩
      · rintro (⟨_, h, _⟩ | ⟨j, f, h, hremoved⟩)
        · cases hm.symm.trans h
        · obtain rfl := Option.some.inj (hm.symm.trans h.matching)
          obtain rfl := Option.some.inj (he.symm.trans h.entry)
          rw [unsupportedExtension_eq_none.mpr h.extensions]
          exact if_pos hremoved

theorem getRevocationStatus_eq_revoked {list : CertificateList}
    {certificate : Certificate} {now : Now} :
    (∃ revocationDate reason invalidityDate, getRevocationStatus toLowerCase certificate
      (parseCrl list) now =
      .revoked revocationDate reason invalidityDate) ↔
      ∃ i e, LooksUp toLowerCase list certificate now i e ∧ ¬ e.isRemoved := by
  constructor
  · rintro ⟨revocationDate, reason, invalidityDate, h⟩
    cases hc : checks toLowerCase certificate (parseCrl list) now with
    | error status =>
      obtain ⟨reason, message, rfl⟩ := isUnknown_of_checks hc
      rw [getRevocationStatus_of_checks_error hc] at h
      cases h
    | ok _ =>
      cases hm : matching toLowerCase list certificate with
      | none =>
        rw [getRevocationStatus_of_none hc hm] at h
        split at h <;> cases h
      | some i =>
        obtain ⟨e, he⟩ := exists_of_matching hm
        rw [getRevocationStatus_of_some hc hm he] at h
        split at h
        · cases h
        · next hknown =>
          dsimp only at h
          split_ifs at h with hremoved
          exact ⟨i, e, ⟨hc, hm, he, unsupportedExtension_eq_none.mp hknown⟩, hremoved⟩
  · rintro ⟨i, e, h, hremoved⟩
    rw [getRevocationStatus_of_some h.checks h.matching h.entry,
      unsupportedExtension_eq_none.mpr h.extensions]
    exact ⟨_, _, _, if_neg hremoved⟩

/-- A list that passes covers the certificate, but for what is not looked at. -/
theorem clears_of_passes {list : CertificateList} {certificate : Certificate} {now : Now}
    (h : Passes toLowerCase list certificate now)
    (hu : Unchecked toLowerCase list certificate now) :
    Clears toLowerCase list certificate now := by
  have hchecks : checks toLowerCase certificate (parseCrl list) now = .ok () := by
    rcases h with ⟨h, _⟩ | ⟨_, _, h, _⟩
    · exact h
    · exact h.checks
  obtain ⟨hextensions, hissuer, htime, hscope⟩ := checks_eq_ok hchecks
  rw [checkExtensions_eq_ok] at hextensions
  refine ⟨hextensions.1, current_of_checkTime htime hu.validDate, hextensions.2, ?_, fun idp hidp =>
    (covers_of_checkScope hscope hidp).1, fun idp hidp => ?_, fun idp hidp => ?_, ?_,
      fun i e he => ?_⟩
  · intro e he
    obtain ⟨i, hi⟩ := List.mem_iff_getElem?.mp he
    by_cases hm : matching toLowerCase list certificate = some i
    · rcases h with ⟨_, hnone, _⟩ | ⟨j, f, h, _⟩
      · cases hm.symm.trans hnone
      · obtain rfl := Option.some.inj (hm.symm.trans h.matching)
        obtain rfl := Option.some.inj (hi.symm.trans h.entry)
        exact h.extensions
    · exact hu.skipped i e hi hm
  · by_cases huris : idp.distributionPointUris = []
    · exact hu.distributionPoint idp hidp huris
    · exact (covers_of_checkScope hscope hidp).2 huris
  · rcases h with ⟨_, _, hall⟩ | ⟨i, e, h, _⟩
    · rw [hidp] at hall
      exact hall
    · exact hu.reasons (by rw [h.matching]; exact Option.some_ne_none i) idp hidp
  · cases hindirect : list.issuingDistributionPoint.any IssuingDistributionPoint.indirectCRL with
    | false => exact .inl (namesEqual_of_checkIssuer hissuer hindirect)
    | true =>
      cases hm : matching toLowerCase list certificate with
      | none => exact hu.issuer hm hindirect
      | some i => exact namesIssuer_of_matching hm hindirect
  · by_cases hdigits : normalizeSerial e.userCertificate.hex =
      normalizeSerial certificate.serialNumber.hex
    · exact hu.duplicates (matching_ne_none_of_isEntryFor he hdigits) i e he hdigits
    · exact hu.digits i e he hdigits

theorem unchecked_of_clears {list : CertificateList} {certificate : Certificate} {now : Now}
    (h : Clears toLowerCase list certificate now) : Unchecked toLowerCase list certificate now where
  validDate time heq := by
    have hcurrent := h.current
    rw [heq] at hcurrent
    obtain ⟨now, rfl, _⟩ := hcurrent
    rfl
  skipped _ _ he _ := h.entryExtensions _ (List.mem_of_getElem? he)
  distributionPoint idp hidp _ := h.coversDistributionPoint idp hidp
  reasons _ := h.coversReasons
  issuer _ _ := h.namesIssuer
  digits i e he _ := h.notRevoked i e he
  duplicates _ i e he _ := h.notRevoked i e he

/-- **A status is right** exactly where nothing goes wrong that is not looked at: nothing that the
branch that clears a certificate leaves out, and no entry that is misread without another one for
the certificate. -/
theorem sound_iff {list : CertificateList} {certificate : Certificate} {now : Now} :
    Sound toLowerCase list certificate now ↔
      (Passes toLowerCase list certificate now → Unchecked toLowerCase list certificate now) ∧
      ∀ i e, LooksUp toLowerCase list certificate now i e → ¬ e.isRemoved →
        Misread toLowerCase list certificate i e →
        ∃ j f, IsEntryFor toLowerCase list certificate j f := by
  constructor
  · intro h
    refine ⟨fun hpasses => unchecked_of_clears
      (h.good (getRevocationStatus_eq_good.mpr hpasses)), ?_⟩
    intro i e hlookup hremoved _
    obtain ⟨revocationDate, reason, invalidityDate, hstatus⟩ :=
      getRevocationStatus_eq_revoked.mpr ⟨i, e, hlookup, hremoved⟩
    exact h.revoked _ _ _ hstatus
  · rintro ⟨hpasses, hrejects⟩
    refine ⟨fun hgood => ?_, fun revocationDate reason invalidityDate hstatus => ?_⟩
    · have h := getRevocationStatus_eq_good.mp hgood
      exact clears_of_passes h (hpasses h)
    · obtain ⟨i, e, hlookup, hremoved⟩ := getRevocationStatus_eq_revoked.mp ⟨_, _, _, hstatus⟩
      rcases isEntryFor_or_misread hlookup.matching hlookup.entry with hentry | hmisread
      · exact ⟨i, e, hentry⟩
      · exact hrejects i e hlookup hremoved hmisread

/-! ## Lists that clear a certificate that they do not cover -/

/-- A name with one attribute, an organisation. -/
def organization (name : String) : DistinguishedName := ⟨[⟨"2.5.4.10", name⟩]⟩

def signer : Certificate where
  serialNumber := ⟨[1], by decide⟩
  issuer := organization "a"

/-- An indirect list without entries, issued by someone else. -/
def foreignList : CertificateList where
  issuer := organization "b"
  thisUpdate := 0
  issuingDistributionPoint := some { indirectCRL := true }

/-- The list is not one of the issuer of the certificate and does not name it. -/
theorem foreignList_good :
    getRevocationStatus id signer (parseCrl foreignList) (.at (some 0)) = .good ∧
      ¬ Sound id foreignList signer (.at (some 0)) := by
  have hgood : getRevocationStatus id signer (parseCrl foreignList) (.at (some 0)) = .good := by
    decide +kernel
  refine ⟨hgood, fun h => ?_⟩
  rcases (h.good hgood).namesIssuer with hequal | ⟨_, e, he, _⟩
  · revert hequal
    decide +kernel
  · cases he

end IdentityCommon.X509
