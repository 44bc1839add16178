import IdentityCommon.OpenidFederation.TrustChains
import IdentityCommon.SdJwt.KeyBinding

/-!
# Creating entity statements

How entity configurations and statements are created, and that a resolution reads them as what they
were created from.

## Main definitions

- `createEntityConfiguration`, `createEntityStatement` — signed JWTs of claims that meet their
  schema
- `Verifies` — a verifier that accepts what a signer has signed

## Main results

- `created_read` — what is created is read by a resolution with the claims that it was created from,
  and its signature is verified

## Design notes

The id of a key is a text. Of the claims, a key is looked up in the key set only.
-/

namespace IdentityCommon.OpenidFederation

open IdentityCommon.Except AssocList Ecma Value Common Jose SdJwt

/-! ## Creation -/

structure SignOptions where
  toBeSigned : List UInt8
  jwk : Value

abbrev SignCallback := SignOptions → Except String (List UInt8)

/-- `Object.keys(value).length === 0`. -/
def hasNoKeys : Value → Bool
  | obj [] => true
  | _ => false

def createJwtSignableInput (header payload : Value) : Except String (List UInt8) :=
  if hasNoKeys header then .error "Can not create JWT with an empty header"
  else if hasNoKeys payload then .error "Can not create JWT with an empty payload"
  else .ok (stringToBytes (encodeValue header ++ "." ++ encodeValue payload))

def createJsonWebToken (header payload : Value) (signature : List UInt8) : String :=
  compactJwt header payload (String.ofList (Base64url.encode signature))

def createEntityConfiguration (schemas : ClaimSchemas) (signJwtCallback : SignCallback)
    (header claims : Value) : Except String String := do
  let validatedHeader ← validate (zEntityStatementHeader header) "invalid header claims provided"
  let validatedClaims ← validate
    (zEntityConfigurationClaims schemas claims) "invalid payload claims provided"
  let toBeSigned ← createJwtSignableInput header claims
  let jwk ← getUsedJsonWebKey validatedHeader (obj [("jwks", validatedClaims.jwks)])
  let signature ← signJwtCallback { toBeSigned, jwk }
  return createJsonWebToken header claims signature

/-- The header that a statement gets where none is given. -/
def defaultHeader (jwk : Value) : Value :=
  obj [("typ", str "entity-statement+jwt"), ("kid", jwk.get "kid")]

def createEntityStatement (schemas : ClaimSchemas) (signJwtCallback : SignCallback)
    (claims jwk : Value) (header : Option Value) : Except String String := do
  let header := header.getD (defaultHeader jwk)
  if kidOf header ≠ kidOf jwk then
    .error ("key id in the header: '" ++ (kidOf header).getD "undefined" ++
      "' does not match the key id in the JWK: '" ++ (kidOf jwk).getD "undefined" ++ "'")
  else
    let _validatedHeader ← validate (zEntityStatementHeader header) "invalid header claims provided"
    let _validatedClaims ← validate
      (zEntityStatementClaims schemas claims) "invalid payload claims provided"
    let toBeSigned ← createJwtSignableInput header claims
    let signature ← signJwtCallback { toBeSigned, jwk }
    return createJsonWebToken header claims signature

/-! ## Parts -/

theorem encode_ne_nil {bytes : List UInt8} (h : bytes ≠ []) : Base64url.encode bytes ≠ [] := by
  intro hempty
  have hdecode := Base64url.decode_encode bytes
  rw [hempty] at hdecode
  exact h (Except.ok.inj hdecode).symm

theorem encodeValue_ne_empty {v : Value} (h : v.IsJson) : encodeValue v ≠ "" := by
  intro hempty
  have hdecode := base64urlDecodeJson_encodeValue h
  rw [hempty] at hdecode
  cases hdecode

theorem parts_createJsonWebToken {header payload : Value} {signature : List UInt8}
    (hheader : header.IsJson) (hpayload : payload.IsJson) (hsignature : signature ≠ []) :
    part (createJsonWebToken header payload signature) 0 = some (encodeValue header) ∧
      part (createJsonWebToken header payload signature) 1 = some (encodeValue payload) ∧
      part (createJsonWebToken header payload signature) 2 =
        some (String.ofList (Base64url.encode signature)) := by
  have hdot : '.' ∉ Base64url.chars := by decide
  have hsplit : split (createJsonWebToken header payload signature) '.' =
      [encodeValue header, encodeValue payload, String.ofList (Base64url.encode signature)] := by
    rw [createJsonWebToken, compactJwt_eq_join]
    apply split_join (List.cons_ne_nil _ _)
    rw [List.forall_mem_cons, List.forall_mem_cons, List.forall_mem_singleton, String.toList_ofList]
    exact ⟨not_mem_encodeValue hdot _, not_mem_encodeValue hdot _,
      fun hmem => hdot (Base64url.mem_chars_of_encode _ _ hmem)⟩
  have hne : String.ofList (Base64url.encode signature) ≠ "" := by
    intro hempty
    have htext := congrArg String.toList hempty
    rw [String.toList_ofList] at htext
    exact encode_ne_nil hsignature htext
  rw [part, part, part, hsplit]
  refine ⟨?_, ?_, ?_⟩
  · exact Option.filter_eq_some_iff.mpr ⟨rfl, decide_eq_true (encodeValue_ne_empty hheader)⟩
  · exact Option.filter_eq_some_iff.mpr ⟨rfl, decide_eq_true (encodeValue_ne_empty hpayload)⟩
  · exact Option.filter_eq_some_iff.mpr ⟨rfl, decide_eq_true hne⟩

/-- A token is parsed to what it was created from, and its signature is one of the input of the
signer. -/
theorem parseJsonWebToken_createJsonWebToken {header payload : Value}
    {signature toBeSigned : List UInt8} (hheader : header.IsJson) (hpayload : payload.IsJson)
    (hsignature : signature ≠ [])
    (hsigned : createJwtSignableInput header payload = .ok toBeSigned) :
    parseJsonWebToken (createJsonWebToken header payload signature) =
      .ok ⟨header, payload, signature, toBeSigned⟩ := by
  obtain ⟨h₀, h₁, h₂⟩ := parts_createJsonWebToken hheader hpayload hsignature
  rw [createJwtSignableInput] at hsigned
  split_ifs at hsigned
  cases hsigned
  rw [parseJsonWebToken, h₀, h₁, h₂]
  dsimp only [orMissing]
  rw [ok_bind, ok_bind, ok_bind, base64urlDecodeJson_encodeValue hheader,
    base64urlDecodeJson_encodeValue hpayload, String.toList_ofList, Base64url.decode_encode]
  rfl

theorem zJsonWebToken_createJsonWebToken {α : Type} {claimsSchema : Value → Option α}
    {headerSchema : Schema} {header payload validatedHeader : Value} {validatedClaims : α}
    {signature : List UInt8} (hheader : header.IsJson) (hpayload : payload.IsJson)
    (hsignature : signature ≠ []) (hvalidated : headerSchema header = some validatedHeader)
    (hclaims : claimsSchema payload = some validatedClaims) :
    zJsonWebToken claimsSchema headerSchema (createJsonWebToken header payload signature) =
      some (validatedHeader, validatedClaims) := by
  obtain ⟨h₀, h₁, h₂⟩ := parts_createJsonWebToken hheader hpayload hsignature
  rw [zJsonWebToken, h₀, h₁, h₂]
  simp only [Option.bind_eq_bind, Option.bind_some, base64urlDecodeJson_encodeValue hheader,
    base64urlDecodeJson_encodeValue hpayload, String.toList_ofList, Base64url.decode_encode,
    Except.toOption, hvalidated, hclaims]
  rfl

/-! ## Keys -/

theorem looseObject_singleton {key : String} {schema : Schema} {members : Members} {value : Value}
    (hinherited : inherited key = undefined) (h : schema (member members key) = some value) :
    ∃ w, looseObject [(key, schema)] (obj members) = some w ∧ w.get key = value := by
  have hparse : ∃ known, parseShape [(key, schema)] members = some known :=
    ⟨_, parseShape_cons.mpr ⟨value, [], h, rfl, rfl⟩⟩
  obtain ⟨known, hknown⟩ := hparse
  have hw : looseObject [(key, schema)] (obj members) =
      some (obj (known ++ members.filter fun m => isOther [(key, schema)] m.1)) := by
    rw [looseObject, hknown]
    rfl
  refine ⟨_, hw, ?_⟩
  have hn : (keys [(key, schema)]).Nodup := List.nodup_singleton key
  obtain ⟨members', heq, hvalue⟩ :=
    schema_of_looseObject hn (List.mem_singleton_self _) hinherited hw
  obtain rfl := Value.obj.inj heq
  exact (Option.some.inj (h.symm.trans hvalue)).symm

theorem find?_of_nodup {α β : Type*} [DecidableEq β] (f : α → β) {l : List α} (hn : (l.map f).Nodup)
    {a : α} (ha : a ∈ l) {b : β} (hb : f a = b) : l.find? (fun x => f x = b) = some a := by
  induction l with
  | nil => cases ha
  | cons x l ih =>
    obtain ⟨hx, hn⟩ := List.nodup_cons.mp hn
    rcases List.mem_cons.mp ha with rfl | ha
    · exact List.find?_cons_of_pos (decide_eq_true hb)
    · have hne : f x ≠ b := fun heq => hx (heq.trans hb.symm ▸ List.mem_map_of_mem ha)
      rw [List.find?_cons_of_neg (by simpa using hne)]
      exact ih hn ha

/-- The first key of a set with the id of a header. -/
def keyOfHeader (kid : String) (jwks : Value) : Except String Value :=
  match (keysOf jwks).find? fun key => kidOf key = some kid with
  | some key => .ok key
  | none => .error ("key with id: '" ++ kid ++ "' could not be found in the claims")

theorem getUsedJsonWebKey_eq {headerMembers members : Members} {kid : String} {jwks : Value}
    (hkid : member headerMembers "kid" = str kid)
    (hjwks : zJsonWebKeySet (member members "jwks") = some jwks) :
    getUsedJsonWebKey (obj headerMembers) (obj members) = keyOfHeader kid jwks := by
  have htext : zString (member headerMembers "kid") = some (str kid) := by
    rw [hkid]
    rfl
  obtain ⟨validatedHeader, hheader, hgetKid⟩ := looseObject_singleton rfl htext
  obtain ⟨validatedClaims, hclaims, hgetJwks⟩ := looseObject_singleton rfl hjwks
  have hsame : kidOf validatedHeader = some kid := by
    rw [kidOf, hgetKid]
    rfl
  rw [getUsedJsonWebKey, validate_eq_ok.mpr hheader, ok_bind, validate_eq_ok.mpr hclaims, ok_bind,
    hgetJwks, hsame, keyOfHeader]
  rfl

/-- A header that meets its schema has the id of a key, which is kept. -/
theorem kid_of_zEntityStatementHeader {header validated : Value}
    (h : zEntityStatementHeader header = some validated) :
    ∃ members members' kid, header = obj members ∧ validated = obj members' ∧
    member members "kid" = str kid ∧
      member members' "kid" = str kid ∧ kidOf header = some kid := by
  obtain ⟨members, rfl, hkid⟩ := schema_of_looseObject (by decide) List.mem_cons_self rfl h
  obtain ⟨kid, hget⟩ := zString_eq_some hkid
  have hkeep : validated.get "kid" = member members "kid" := keeps_textWhere _ _ _ hkid
  obtain ⟨members₀, known, -, -, rfl⟩ := looseObject_eq_some h
  refine ⟨members, known ++ members₀.filter _, kid, rfl, rfl, hkeep.symm.trans hget, hget, ?_⟩
  show textOf (member members "kid") = some kid
  rw [← hkeep, hget]
  rfl

/-! ## Reading what was created -/

/-- A verifier that accepts what a signer has signed with the same key. -/
def Verifies (verifyJwtCallback : VerifyCallback) (signJwtCallback : SignCallback) : Prop :=
  ∀ (signed : SignOptions) (signature : List UInt8), signJwtCallback signed = .ok signature →
    signature ≠ [] ∧ ∀ verified : VerifyOptions, verified.data = signed.toBeSigned →
    verified.jwk = signed.jwk →
      verified.signature = signature → verifyJwtCallback verified = .ok true

/-- A token is verified with the keys of a set among which the key of the signer is the first with
its id. -/
theorem verifyJwtSignature_createJsonWebToken {verifyJwtCallback : VerifyCallback}
    {signJwtCallback : SignCallback} (hverifies : Verifies verifyJwtCallback signJwtCallback)
    {headerMembers members : Members} {kid : String} {payload jwk : Value}
    {toBeSigned signature : List UInt8} {jwks : Option Value} {keySet : Value}
    (hheader : (obj headerMembers).IsJson) (hpayload : payload.IsJson)
    (hkid : member headerMembers "kid" = str kid)
    (hclaims : (jwks.elim payload fun jwks => obj [("jwks", jwks)]) = obj members)
    (hset : zJsonWebKeySet (member members "jwks") = some keySet)
    (hkey : keyOfHeader kid keySet = .ok jwk)
    (hinput : createJwtSignableInput (obj headerMembers) payload = .ok toBeSigned)
    (hsign : signJwtCallback { toBeSigned, jwk } = .ok signature) :
    verifyJwtSignature verifyJwtCallback (createJsonWebToken (obj headerMembers) payload signature)
      jwks = .ok () := by
  obtain ⟨hsignature, haccepts⟩ := hverifies _ _ hsign
  have hused : getUsedJsonWebKey (obj headerMembers) (obj members) = .ok jwk :=
    (getUsedJsonWebKey_eq hkid hset).trans hkey
  rw [← hclaims] at hused
  rw [verifyJwtSignature,
    parseJsonWebToken_createJsonWebToken hheader hpayload hsignature hinput, ok_bind]
  cases jwks with
  | none =>
    dsimp only
    rw [show getUsedJsonWebKey (obj headerMembers) payload = .ok jwk from hused, ok_bind,
      haccepts _ rfl rfl rfl, ok_bind]
    rfl
  | some jwks =>
    dsimp only
    rw [show getUsedJsonWebKey (obj headerMembers) (obj [("jwks", jwks)]) =
      .ok jwk from hused, ok_bind, haccepts _ rfl rfl rfl, ok_bind]
    rfl

/-- A configuration that is created is parsed to the claims that it was created from, and is signed
with one of their keys, which verifies it wherever these keys are listed. -/
theorem createEntityConfiguration_eq_ok {schemas : ClaimSchemas}
    {verifyJwtCallback : VerifyCallback} {signJwtCallback : SignCallback}
    (hverifies : Verifies verifyJwtCallback signJwtCallback) {header claims : Value}
    {jwt : String} (hheader : header.IsJson) (hclaims : claims.IsJson)
    (h : createEntityConfiguration schemas signJwtCallback header claims = .ok jwt) :
    ∃ validatedHeader validatedClaims, zEntityConfigurationClaims schemas claims =
      some validatedClaims ∧
      zEntityConfigurationJwt schemas jwt = some (validatedHeader, validatedClaims) ∧
      verifyJwtSignature verifyJwtCallback jwt none = .ok () ∧
      ∀ jwks, zJsonWebKeySet jwks = some validatedClaims.jwks →
      verifyJwtSignature verifyJwtCallback jwt (some jwks) = .ok () := by
  obtain ⟨validatedHeader, hvalidatedHeader, h⟩ := bind_eq_ok.mp h
  obtain ⟨validatedClaims, hvalidatedClaims, h⟩ := bind_eq_ok.mp h
  obtain ⟨toBeSigned, hinput, h⟩ := bind_eq_ok.mp h
  obtain ⟨jwk, hjwk, h⟩ := bind_eq_ok.mp h
  obtain ⟨signature, hsign, h⟩ := bind_eq_ok.mp h
  cases h
  rw [validate_eq_ok] at hvalidatedHeader hvalidatedClaims
  obtain ⟨members, members', kid, rfl, rfl, hkid, hkid', -⟩ :=
    kid_of_zEntityStatementHeader hvalidatedHeader
  have hparsed := (Option.filter_eq_some_iff.mp hvalidatedClaims).1
  have hset : zJsonWebKeySet (member [("jwks", validatedClaims.jwks)] "jwks") =
      some validatedClaims.jwks :=
    zJsonWebKeySet_jwks hparsed
  rw [getUsedJsonWebKey_eq hkid' hset] at hjwk
  obtain ⟨claimMembers, rfl⟩ : ∃ claimMembers, claims = obj claimMembers := by
    cases claims with
    | leaf l => cases hparsed
    | arr items => cases hparsed
    | obj claimMembers => exact ⟨claimMembers, rfl⟩
  refine ⟨_, validatedClaims, hvalidatedClaims,
    zJsonWebToken_createJsonWebToken hheader hclaims
      (hverifies _ _ hsign).1 hvalidatedHeader hvalidatedClaims, ?_,
    fun jwks hjwks => ?_⟩
  · exact verifyJwtSignature_createJsonWebToken hverifies hheader hclaims hkid rfl
      (jwks_of_zEntityStatementClaims hparsed) hjwk hinput hsign
  · have hkeys : ((some jwks).elim (obj claimMembers) fun jwks => obj [("jwks", jwks)]) =
      obj [("jwks", jwks)] := rfl
    exact verifyJwtSignature_createJsonWebToken hverifies hheader hclaims hkid hkeys hjwks
      hjwk hinput hsign

/-- A statement that is created is parsed to the claims that it was created from, and is verified
with every key set in which the key of the issuer is the one with its id. -/
theorem createEntityStatement_eq_ok {schemas : ClaimSchemas} {verifyJwtCallback : VerifyCallback}
    {signJwtCallback : SignCallback} (hverifies : Verifies verifyJwtCallback signJwtCallback)
    {claims jwk : Value} {header : Option Value} {jwt : String}
    (hheader : (header.getD (defaultHeader jwk)).IsJson) (hclaims : claims.IsJson)
    (h : createEntityStatement schemas signJwtCallback claims jwk header = .ok jwt) :
    ∃ validatedHeader validatedClaims, zEntityStatementClaims schemas claims =
      some validatedClaims ∧
      zEntityStatementJwt schemas jwt = some (validatedHeader, validatedClaims) ∧
      ∀ jwks keySet, zJsonWebKeySet jwks = some keySet → jwk ∈ keysOf keySet →
      ((keysOf keySet).map kidOf).Nodup →
        verifyJwtSignature verifyJwtCallback jwt (some jwks) = .ok () := by
  rw [createEntityStatement] at h
  split at h
  case isTrue => cases h
  case isFalse hsame =>
    obtain ⟨validatedHeader, hvalidatedHeader, h⟩ := bind_eq_ok.mp h
    obtain ⟨validatedClaims, hvalidatedClaims, h⟩ := bind_eq_ok.mp h
    obtain ⟨toBeSigned, hinput, h⟩ := bind_eq_ok.mp h
    obtain ⟨signature, hsign, h⟩ := bind_eq_ok.mp h
    cases h
    rw [validate_eq_ok] at hvalidatedHeader hvalidatedClaims
    obtain ⟨members, members', kid, heq, rfl, hkid, -, hheaderKid⟩ :=
      kid_of_zEntityStatementHeader hvalidatedHeader
    refine ⟨_, validatedClaims, hvalidatedClaims,
      zJsonWebToken_createJsonWebToken hheader hclaims
        (hverifies _ _ hsign).1 hvalidatedHeader hvalidatedClaims,
      fun jwks keySet hset hmem hnodup => ?_⟩
    have hkey : keyOfHeader kid keySet = .ok jwk := by
      have hjwkKid : kidOf jwk = some kid := (not_not.mp hsame).symm.trans hheaderKid
      rw [keyOfHeader, find?_of_nodup kidOf hnodup hmem hjwkKid]
    rw [heq] at hheader hinput ⊢
    have hkeys : ((some jwks).elim claims fun jwks => obj [("jwks", jwks)]) =
        obj [("jwks", jwks)] := rfl
    exact verifyJwtSignature_createJsonWebToken hverifies hheader hclaims hkid hkeys hset
      hkey hinput hsign

/-- A configuration that is created is read by a resolution with the claims that it was created
from. Only its times, its critical claims and what belongs into statements only are checked beyond
what its creation has checked. -/
theorem readEntityConfiguration_created {options : ResolveTrustChainsOptions}
    {signJwtCallback : SignCallback}
    (hverifies : Verifies options.verifyJwtCallback signJwtCallback)
    {header claims : Value} {jwt : String} (hheader : header.IsJson) (hclaims : claims.IsJson)
    (h : createEntityConfiguration options.schemas signJwtCallback header claims = .ok jwt) :
    ∃ validated, zEntityConfigurationClaims options.schemas claims = some validated ∧
      readEntityConfiguration options validated.sub jwt = (do
        assertCurrent options validated
        assertEntityConfigurationClaims validated
        return { jwt, claims := validated }) := by
  obtain ⟨validatedHeader, validated, hvalidated, hparse, hverified, -⟩ :=
    createEntityConfiguration_eq_ok hverifies hheader hclaims h
  refine ⟨validated, hvalidated, ?_⟩
  rw [readEntityConfiguration, hparse, validate_eq_ok.mpr rfl, ok_bind]
  dsimp only
  rw [if_neg (not_not.mpr rfl), hverified, ok_bind]

/-- A statement that is created is read by a resolution with the claims that it was created from,
for its issuer and its subject, and is verified with every key set in which the key of its issuer is
the one with its id. -/
theorem readStatement_created {options : ResolveTrustChainsOptions} {signJwtCallback : SignCallback}
    (hverifies : Verifies options.verifyJwtCallback signJwtCallback) {claims jwk : Value}
    {header : Option Value} {jwt : String} (hheader : (header.getD (defaultHeader jwk)).IsJson)
    (hclaims : claims.IsJson)
    (h : createEntityStatement options.schemas signJwtCallback claims jwk header = .ok jwt) :
    ∃ validated, zEntityStatementClaims options.schemas claims = some validated ∧
      (∀ index subject superior, validated.iss = superior.claims.sub →
        validated.sub = subject.claims.sub →
        readStatement options index subject superior jwt = (do
          assertCurrent options validated
          assertSubordinateStatementClaims validated
          if (validated.constraints.bind (·.namingConstraints)).isSome then
            .error ("'" ++ superior.claims.sub ++
              "' sets naming_constraints, which are not supported")
          else
            assertPathLength superior validated index
            return { jwt, claims := validated })) ∧
      ∀ jwks keySet, zJsonWebKeySet jwks = some keySet → jwk ∈ keysOf keySet →
      ((keysOf keySet).map kidOf).Nodup →
        verifyJwtSignature options.verifyJwtCallback jwt (some jwks) = .ok () := by
  obtain ⟨validatedHeader, validated, hvalidated, hparse, hverified⟩ :=
    createEntityStatement_eq_ok hverifies hheader hclaims h
  refine ⟨validated, hvalidated, fun index subject superior hiss hsub => ?_, hverified⟩
  rw [readStatement, hparse, validate_eq_ok.mpr rfl, ok_bind]
  dsimp only
  rw [if_neg (not_or.mpr ⟨not_not.mpr hiss, not_not.mpr hsub⟩)]

/-- What is created is read by a resolution with the claims that it was created from, and its
signature is verified. -/
theorem created_read {options : ResolveTrustChainsOptions} {signJwtCallback : SignCallback}
    (hverifies : Verifies options.verifyJwtCallback signJwtCallback) :
    (∀ (header claims : Value) (jwt : String), header.IsJson → claims.IsJson →
      createEntityConfiguration options.schemas signJwtCallback header claims = .ok jwt →
      ∃ validated, zEntityConfigurationClaims options.schemas claims = some validated ∧
        readEntityConfiguration options validated.sub jwt = (do
          assertCurrent options validated
          assertEntityConfigurationClaims validated
          return { jwt, claims := validated })) ∧
    ∀ (claims jwk : Value) (header : Option Value) (jwt : String),
    (header.getD (defaultHeader jwk)).IsJson → claims.IsJson →
      createEntityStatement options.schemas signJwtCallback claims jwk header = .ok jwt →
      ∃ validated, zEntityStatementClaims options.schemas claims = some validated ∧
        (∀ index subject superior, validated.iss = superior.claims.sub →
          validated.sub = subject.claims.sub →
          readStatement options index subject superior jwt = (do
            assertCurrent options validated
            assertSubordinateStatementClaims validated
            if (validated.constraints.bind (·.namingConstraints)).isSome then
              .error ("'" ++ superior.claims.sub ++
                "' sets naming_constraints, which are not supported")
            else
              assertPathLength superior validated index
              return { jwt, claims := validated })) ∧
        ∀ jwks keySet, zJsonWebKeySet jwks = some keySet → jwk ∈ keysOf keySet →
        ((keysOf keySet).map kidOf).Nodup →
          verifyJwtSignature options.verifyJwtCallback jwt (some jwks) = .ok () :=
  ⟨fun _ _ _ hheader hclaims h => readEntityConfiguration_created hverifies hheader hclaims h,
    fun _ _ _ _ hheader hclaims h => readStatement_created hverifies hheader hclaims h⟩

/-! ## A leaf with two superiors -/

/-- A signature that names the key. -/
def exampleSignature (jwk : Value) (data : List UInt8) : List UInt8 :=
  1 :: stringToBytes ((kidOf jwk).getD "") ++ data

def exampleSign : SignCallback := fun signed => .ok (exampleSignature signed.jwk signed.toBeSigned)

def exampleSchemas : ClaimSchemas := ⟨some, some, recordOf membersOf, some, some, some⟩

def exampleKey (id : String) : Value := obj [("kty", str "EC"), ("kid", str id)]

def exampleKeys (id : String) : Value := obj [("keys", arr [exampleKey id])]

def exampleClaims (iss sub : String) (others : Members) : Value :=
  obj ([("iss", str iss), ("sub", str sub), ("iat", num (.ofInt 0)), ("exp", num (.ofInt 2)),
    ("jwks", exampleKeys sub)] ++ others)

def exampleConfiguration (id : String) (others : Members) : Except String String :=
  createEntityConfiguration exampleSchemas exampleSign (defaultHeader (exampleKey id))
    (exampleClaims id id others)

def exampleStatement (iss sub : String) : Except String String :=
  createEntityStatement exampleSchemas exampleSign (exampleClaims iss sub []) (exampleKey iss) none

def exampleHints (hints : List String) : String × Value := ("authority_hints", arr (hints.map str))

def exampleEndpoint (id : String) : String × Value :=
  ("metadata",
    obj [("federation_entity", obj [("federation_fetch_endpoint", str (id ++ "/fetch"))])])

/-- What is fetched at each URL. -/
def exampleAnswers : List (String × Except String String) := [
  ("https://a/.well-known/openid-federation",
    exampleConfiguration "https://a" [exampleHints ["https://b", "https://t"]]),
  ("https://b/.well-known/openid-federation",
    exampleConfiguration "https://b" [exampleHints ["https://t"], exampleEndpoint "https://b"]),
  ("https://t/.well-known/openid-federation",
    exampleConfiguration "https://t" [exampleEndpoint "https://t"]),
  ("https://b/fetch?sub=https%3A%2F%2Fa", exampleStatement "https://b" "https://a"),
  ("https://t/fetch?sub=https%3A%2F%2Fa", exampleStatement "https://t" "https://a"),
  ("https://t/fetch?sub=https%3A%2F%2Fb", exampleStatement "https://t" "https://b")]

/-- A leaf with an intermediate and a trust anchor above it, and the trust anchor above the
intermediate. -/
def exampleOptions : ResolveTrustChainsOptions where
  verifyJwtCallback verified :=
    .ok (verified.signature = exampleSignature verified.jwk verified.data)
  entityId := "https://a"
  trustAnchors := [⟨"https://t", none⟩]
  fetchCallback _ url := (exampleAnswers.lookup url).elim (.error "not found") fun jwt =>
    .ok ⟨true, 200, some ENTITY_STATEMENT_CONTENT_TYPE, jwt⟩
  now := secondsToDate (.ofNumber (.ofInt 1))
  schemas := exampleSchemas

theorem verifies_example : Verifies exampleOptions.verifyJwtCallback exampleSign := by
  intro signed signature hsigned
  cases hsigned
  refine ⟨List.cons_ne_nil _ _, fun verified hdata hjwk hsignature => ?_⟩
  dsimp only [exampleOptions]
  rw [hdata, hjwk, hsignature, decide_eq_true rfl]

theorem created_read_example :
    ((exampleConfiguration "https://a" [exampleHints ["https://b"]]).isOk = true ∧
      ∀ jwt, exampleConfiguration "https://a" [exampleHints ["https://b"]] = .ok jwt →
        ∃ validated, zEntityConfigurationClaims exampleSchemas
            (exampleClaims "https://a" "https://a" [exampleHints ["https://b"]]) = some validated ∧
          readEntityConfiguration exampleOptions validated.sub jwt = (do
            assertCurrent exampleOptions validated
            assertEntityConfigurationClaims validated
            return { jwt, claims := validated })) ∧
    (exampleStatement "https://b" "https://a").isOk = true ∧
      ∀ jwt, exampleStatement "https://b" "https://a" = .ok jwt →
        verifyJwtSignature exampleOptions.verifyJwtCallback jwt (some (exampleKeys "https://b")) =
          .ok () := by
  obtain ⟨hconfiguration, hstatement⟩ := created_read verifies_example
  refine ⟨⟨by decide +kernel, fun jwt h =>
    hconfiguration _ _ jwt (IsJson.of_isJson rfl) (IsJson.of_isJson rfl) h⟩, by decide +kernel,
      fun jwt h => ?_⟩
  obtain ⟨validated, -, -, hverified⟩ :=
    hstatement _ _ none jwt (IsJson.of_isJson rfl) (IsJson.of_isJson rfl) h
  exact hverified _ (exampleKeys "https://b") rfl (List.mem_singleton_self _)
    (List.nodup_singleton _)

end IdentityCommon.OpenidFederation
