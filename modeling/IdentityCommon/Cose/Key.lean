import IdentityCommon.Common.Base64url
import IdentityCommon.Cose.Headers
import IdentityCommon.Jose.Algorithms

/-!
# COSE keys

The map of a COSE key, and its conversion from and to a JWK.

## Main definitions

- `CoseKeyMap`, `zCoseKey` — the map of a key, and its schema
- `jwkCoseKeyMap.alg`, `coseKeyJwkAlg` — the names of a JWK and the numbers of COSE, in both
  directions
- `fromJwk`, `CoseKeyMap.jwk` — the two conversions
- `IsJwk` — a JWK whose members all have a counterpart
- `RoundTrips` — a JWK that is converted to a key and back without loss

## Main results

- `roundTrips_iff` — the JWKs that are converted without loss

## Design notes

A JWK is its registered members; a member whose value is `undefined` counts as absent. A name that
is that of an inherited member leads to a value that the schema rejects.
-/

namespace IdentityCommon.Cose

open IdentityCommon.Cbor IdentityCommon.Common IdentityCommon.Except IdentityCommon.Ecma

/-! ## Tables -/

namespace jwkCoseKeyMap

def kty : List (String × ℤ) := [("OKP", 1), ("EC", 2), ("OCT", 4)]

def crv : List (String × ℤ) :=
  [("P-256", 1), ("P-384", 2), ("P-521", 3), ("X25519", 4), ("Ed25519", 6), ("Ed448", 7)]

def alg : List (String × ℤ) :=
  [("EdDSA", -8), ("Ed25519", -19), ("Ed448", -53), ("ES256", -7), ("ES384", -35), ("ES512", -36),
    ("PS256", -37), ("PS384", -38), ("PS512", -39), ("RS256", -257), ("RS384", -258),
    ("RS512", -259), ("HS256", 5), ("HS384", 6), ("HS512", 7), ("A128GCM", 1), ("A192GCM", 2),
    ("A256GCM", 3), ("Direct", -6)]

def keyOps : List (String × ℤ) :=
  [("sign", 1), ("verify", 2), ("encrypt", 3), ("decrypt", 4), ("wrapKey", 5), ("unwrapKey", 6),
    ("deriveKey", 7), ("deriveBits", 8)]

end jwkCoseKeyMap

/-- The fully specified algorithms have the names of the polymorphic ones. -/
def coseKeyJwkAlg : List (String × ℤ) :=
  jwkCoseKeyMap.alg ++ [("ES256", -9), ("ES384", -51), ("ES512", -52)]

/-- The key operations of a MAC key. -/
def jwkMacKeyOps : List (String × ℤ) := [("sign", 9), ("verify", 10)]

/-- A member that every object inherits. -/
def isInherited (name : String) : Bool := name = "__proto__" || name ∈ Value.prototypeNames

/-- `table[name] ?? name`; none for a value that the schema rejects. -/
def numberOf (table : List (String × ℤ)) (name : String) : Option Item :=
  match table.lookup name with
  | some n => some (ofInt n)
  | none => if isInherited name then none else some (.text name)

/-- The name of a number in the swapped table, whose names are the texts of the numbers. -/
def nameOf (table : List (String × ℤ)) (item : Item) : Option String :=
  let found := table.find? fun m => match item with
    | .text s => toString m.2 = s
    | .bytes b => toString m.2 = ",".intercalate (b.map fun byte => toString byte.toNat)
    | item => ofInt m.2 = item
  found.map Prod.fst

/-! ## Texts -/

/-- The state of a decoder of UTF-8: how many bytes are needed, the range of the next one, and the
code so far. -/
structure Utf8State where
  needed : ℕ := 0
  lower : ℕ := 0x80
  upper : ℕ := 0xBF
  code : ℕ := 0

/-- The first byte of a character. -/
def Utf8State.start (b : ℕ) : Utf8State × List Char :=
  if b < 0x80 then ({}, [Char.ofNat b])
  else if 0xC2 ≤ b ∧ b ≤ 0xDF then ({ needed := 1, code := b - 0xC0 }, [])
  else if 0xE0 ≤ b ∧ b ≤ 0xEF then
    ({ needed := 2, lower := if b = 0xE0 then 0xA0 else 0x80, upper := if b = 0xED then 0x9F
      else 0xBF, code := b - 0xE0 }, [])
  else if 0xF0 ≤ b ∧ b ≤ 0xF4 then
    ({ needed := 3, lower := if b = 0xF0 then 0x90 else 0x80, upper := if b = 0xF4 then 0x8F
      else 0xBF, code := b - 0xF0 }, [])
  else ({}, ['\ufffd'])

def Utf8State.step (s : Utf8State) (b : ℕ) : Utf8State × List Char :=
  if s.needed = 0 then start b
  else if s.lower ≤ b ∧ b ≤ s.upper then
    let code := s.code * 64 + (b - 0x80)
    if s.needed = 1 then ({}, [Char.ofNat code]) else ({ needed := s.needed - 1, code }, [])
  -- the byte does not continue the character, and starts one of its own
  else ((start b).1, '\ufffd' :: (start b).2)

/-- The text of bytes, with what is not UTF-8 replaced. -/
def replaceInvalid (bytes : Bytes) : String :=
  let (s, chars) := bytes.foldl
    (fun (s, chars) b => ((Utf8State.step s b.toNat).1, chars ++ (Utf8State.step s b.toNat).2))
    (({} : Utf8State), [])
  String.ofList (if s.needed = 0 then chars else chars ++ ['\ufffd'])

/-- `bytesToString`, that does not throw. -/
def textOfBytes (bytes : Bytes) : String :=
  match bytesToString bytes with
  | .ok s => s
  | .error _ => replaceInvalid bytes

example : textOfBytes [0x61, 0xFF, 0xE2, 0x82, 0x62] = "a\ufffd\ufffdb" := by decide +kernel

/-! ## The map of a key -/

abbrev CoseKeyMap := TypedMap

namespace CoseKeyParameter

def keyType : Item := ofInt 1

def keyId : Item := ofInt 2

def algorithm : Item := ofInt 3

def keyOps : Item := ofInt 4

def baseIv : Item := ofInt 5

def curveOrK : Item := ofInt (-1)

def x : Item := ofInt (-2)

def y : Item := ofInt (-3)

def d : Item := ofInt (-4)

end CoseKeyParameter

def isText : Item → Bool
  | .text _ => true
  | _ => false

def isBytes : Item → Bool
  | .bytes _ => true
  | _ => false

/-- The numbers of an enum. -/
def isOneOf (numbers : List ℤ) (item : Item) : Bool := numbers.any fun n => ofInt n = item

def isKeyOps : Item → Bool
  | .array items => items.all fun item =>
      isOneOf [1, 2, 3, 4, 5, 6, 7, 8, 9, 10] item || isText item
  | _ => false

def zCoseKey (m : CoseKeyMap) : Bool :=
  (m.get CoseKeyParameter.keyType).any (fun item => isOneOf [1, 2, 4, 0] item || isText item) &&
    (m.get CoseKeyParameter.keyId).all (fun item => isBytes item || isText item) &&
    (m.get CoseKeyParameter.algorithm).all (fun item => isText item || isNumber item) &&
    (m.get CoseKeyParameter.keyOps).all isKeyOps && (m.get CoseKeyParameter.baseIv).all isBytes &&
    (m.get CoseKeyParameter.curveOrK).all
      (fun item => isOneOf [1, 2, 3, 4, 5, 6, 7] item || isBytes item) &&
    (m.get CoseKeyParameter.x).all isBytes && (m.get CoseKeyParameter.y).all isBytes &&
    (m.get CoseKeyParameter.d).all isBytes

structure CoseKeyOptions where
  keyType : Item
  keyId : Option String := none
  algorithm : Option Item := none
  keyOps : Option (List Item) := none
  baseIv : Option Bytes := none
  curve : Option Item := none
  x : Option Bytes := none
  y : Option Bytes := none
  d : Option Bytes := none
  k : Option Bytes := none

/-- An entry where there is a value. -/
def setOptional (m : CoseKeyMap) (key : Item) : Option Item → CoseKeyMap
  | none => m
  | some value => m.set key value

def mapOfOptions (options : CoseKeyOptions) : CoseKeyMap :=
  let m := OrderedMap.empty.set CoseKeyParameter.keyType options.keyType
  let m := setOptional m CoseKeyParameter.keyId
    (options.keyId.map fun keyId => .bytes (stringToBytes keyId))
  let m := setOptional m CoseKeyParameter.algorithm options.algorithm
  let m := setOptional m CoseKeyParameter.keyOps (options.keyOps.map .array)
  let m := setOptional m CoseKeyParameter.baseIv (options.baseIv.map .bytes)
  let m := setOptional m CoseKeyParameter.curveOrK options.curve
  let m := setOptional m CoseKeyParameter.x (options.x.map .bytes)
  let m := setOptional m CoseKeyParameter.y (options.y.map .bytes)
  let m := setOptional m CoseKeyParameter.d (options.d.map .bytes)
  setOptional m CoseKeyParameter.curveOrK (options.k.map .bytes)

namespace CoseKeyMap

def create (options : CoseKeyOptions) : Except CoseError CoseKeyMap :=
  if zCoseKey (mapOfOptions options) then .ok (mapOfOptions options)
  else .error (.validation "Error decoding CoseKey")

def encode (codec : Codec) (m : CoseKeyMap) : Except CoseError Bytes :=
  if zCoseKey m then .ok (codec.encode m.toItem) else .error (.validation "Error encoding CoseKey")

def decode (codec : Codec) (bytes : Bytes) : Except CoseError CoseKeyMap := do
  match ← cborDecode codec bytes with
  | .map entries =>
    if zCoseKey (TypedMap.fromEntries entries) then .ok (TypedMap.fromEntries entries)
    else .error (.validation "Error decoding CoseKey")
  | _ => .error (.validation "Error decoding CoseKey")

/-- What the structures read of a key. -/
def toCoseKey (m : CoseKeyMap) : CoseKey where
  keyType := (m.get CoseKeyParameter.keyType).getD (.simple 23)
  algorithm := m.get CoseKeyParameter.algorithm
  curveOrK := m.get CoseKeyParameter.curveOrK

def keyType (m : CoseKeyMap) : Item := (toCoseKey m).keyType

def keyId (m : CoseKeyMap) : Option String :=
  (m.get CoseKeyParameter.keyId).bind fun
    | .bytes b => some (textOfBytes b)
    | .text s => some s
    | _ => none

def k (m : CoseKeyMap) : Option Item :=
  if keyType m = ofInt KeyType.oct.value then m.get CoseKeyParameter.curveOrK else none

end CoseKeyMap

/-! ## JWKs -/

@[ext] structure Jwk where
  kty : Option String := none
  kid : Option String := none
  alg : Option String := none
  keyOps : Option (List (Option String)) := none
  baseIv : Option Bytes := none
  crv : Option String := none
  x : Option String := none
  y : Option String := none
  d : Option String := none
  k : Option String := none
  deriving DecidableEq

namespace jwkToCoseKey

def kty (kty : String) : Item :=
  match jwkCoseKeyMap.kty.lookup (Jose.toUpperCase kty) with
  | some n => ofInt n
  | none => .text kty

def keyOp (jwk : Jwk) (ko : String) : Option Item :=
  match if jwk.kty = some "oct" then jwkMacKeyOps.lookup ko else none with
  | some n => some (ofInt n)
  | none => numberOf jwkCoseKeyMap.keyOps ko

/-- The bytes of a member that is not empty. -/
def bytes : Option String → Except CoseError (Option Bytes)
  | none | some "" => .ok none
  | some s => match Base64url.decode s.toList with
    | .ok b => .ok (some b)
    | .error e => .error (.error e.message)

end jwkToCoseKey

/-- A value that is converted, if there is one. -/
def convertOptional {α β : Type} (convert : α → Option β) : Option α → Except CoseError (Option β)
  | none => .ok none
  | some a => match convert a with
    | some b => .ok (some b)
    | none => .error (.validation "Error decoding CoseKey")

def optionsFromJwk (jwk : Jwk) : Except CoseError CoseKeyOptions :=
  match jwk.kty with
  | none => .error (.error "JWK does not contain required kty value")
  | some kty => do
    let x ← jwkToCoseKey.bytes jwk.x
    let y ← jwkToCoseKey.bytes jwk.y
    let d ← jwkToCoseKey.bytes jwk.d
    let k ← jwkToCoseKey.bytes jwk.k
    let algorithm ← convertOptional (numberOf jwkCoseKeyMap.alg) jwk.alg
    let curve ← convertOptional (numberOf jwkCoseKeyMap.crv) jwk.crv
    let keyOps ← convertOptional (List.mapM fun ko => ko.bind (jwkToCoseKey.keyOp jwk)) jwk.keyOps
    return {
      keyType := jwkToCoseKey.kty kty, keyId := jwk.kid, algorithm, keyOps, baseIv := jwk.baseIv,
        curve, x, y, d, k }

def fromJwk (jwk : Jwk) : Except CoseError CoseKeyMap := do
  let options ← optionsFromJwk jwk
  CoseKeyMap.create options

namespace coseKeyToJwkClaim

def keyOp (ko : Item) : Option String :=
  (nameOf jwkMacKeyOps ko).or (nameOf jwkCoseKeyMap.keyOps ko)

def keyOps : Item → List (Option String)
  | .array items => items.map keyOp
  | _ => []

/-- The text of bytes. A number, which a key of another type can have in the place of bytes, has an
empty one. -/
def bytes : Item → String
  | .bytes b => String.ofList (Base64url.encode b)
  | _ => ""

end coseKeyToJwkClaim

def CoseKeyMap.jwk (m : CoseKeyMap) : Jwk where
  kty := nameOf jwkCoseKeyMap.kty (keyType m)
  kid := keyId m
  alg := ((m.get CoseKeyParameter.algorithm).filter truthy).bind (nameOf coseKeyJwkAlg)
  keyOps := (m.get CoseKeyParameter.keyOps).map coseKeyToJwkClaim.keyOps
  baseIv := (m.get CoseKeyParameter.baseIv).bind fun
    | .bytes b => some b
    | _ => none
  crv := (toCoseKey m).curve.bind (nameOf jwkCoseKeyMap.crv)
  x := (m.get CoseKeyParameter.x).map coseKeyToJwkClaim.bytes
  y := (m.get CoseKeyParameter.y).map coseKeyToJwkClaim.bytes
  d := (m.get CoseKeyParameter.d).map coseKeyToJwkClaim.bytes
  k := (k m).map coseKeyToJwkClaim.bytes

/-! ## Conversions without loss -/

/-- The text of bytes that are not empty. -/
def IsBase64UrlOf (s : String) : Prop :=
  ∃ b : Bytes, b ≠ [] ∧ s = String.ofList (Base64url.encode b)

/-- A JWK whose members all have a counterpart. -/
structure IsJwk (jwk : Jwk) : Prop where
  kty : jwk.kty ∈ [some "EC", some "OKP", some "oct"]
  crv : ∀ crv, jwk.crv = some crv → crv ∈ jwkCoseKeyMap.crv.map Prod.fst
  alg : ∀ alg, jwk.alg = some alg → alg ∈ jwkCoseKeyMap.alg.map Prod.fst
  keyOps : ∀ keyOps, jwk.keyOps = some keyOps →
    ∀ ko ∈ keyOps, ∃ name ∈ jwkCoseKeyMap.keyOps.map Prod.fst, ko = some name
  x : ∀ s, jwk.x = some s → IsBase64UrlOf s
  y : ∀ s, jwk.y = some s → IsBase64UrlOf s
  d : ∀ s, jwk.d = some s → IsBase64UrlOf s
  k : ∀ s, jwk.k = some s → IsBase64UrlOf s

/-- A key that is converted to a JWK and back to a key that is encoded as the same map. -/
def ReconvertsTo (codec : Codec) (m : CoseKeyMap) (encoded : Bytes) : Prop :=
  ∃ m', fromJwk m.jwk = .ok m' ∧ m'.encode codec = .ok encoded

/-- A JWK that is converted to a key and back to the same JWK. The key is converted back and forth
without loss as well, also after it is encoded and decoded. -/
def RoundTrips (codec : Codec) (jwk : Jwk) : Prop :=
  ∃ m encoded, fromJwk jwk = .ok m ∧ m.jwk = jwk ∧ m.encode codec = .ok encoded ∧
  ReconvertsTo codec m encoded ∧
    ∃ decoded, CoseKeyMap.decode codec encoded = .ok decoded ∧ ReconvertsTo codec decoded encoded

theorem numberOf_of_mem {table : List (String × ℤ)} {name : String}
    (h : name ∈ table.map Prod.fst) :
    ∃ n, (name, n) ∈ table ∧ numberOf table name = some (ofInt n) := by
  cases hlookup : table.lookup name with
  | some n =>
    refine ⟨n, AssocList.mem_of_lookup hlookup, ?_⟩
    rw [numberOf, hlookup]
  | none => exact absurd h (AssocList.lookup_eq_none_iff.mp hlookup)

theorem nameOf_crv : ∀ m ∈ jwkCoseKeyMap.crv, nameOf jwkCoseKeyMap.crv (ofInt m.2) =
    some m.1 := by decide

theorem nameOf_alg :
    ∀ m ∈ jwkCoseKeyMap.alg, nameOf coseKeyJwkAlg (ofInt m.2) = some m.1 := by decide

theorem keyOp_keyOps : ∀ m ∈ jwkCoseKeyMap.keyOps, coseKeyToJwkClaim.keyOp (ofInt m.2) =
    some m.1 := by decide

theorem truthy_alg : ∀ m ∈ jwkCoseKeyMap.alg, truthy (ofInt m.2) = true := by decide

theorem isOneOf_crv : ∀ m ∈ jwkCoseKeyMap.crv, isOneOf [1, 2, 3, 4, 5, 6, 7] (ofInt m.2) =
    true := by decide

theorem isOneOf_keyOps :
    ∀ m ∈ jwkCoseKeyMap.keyOps, isOneOf [1, 2, 3, 4, 5, 6, 7, 8, 9, 10] (ofInt m.2) = true := by
  decide

theorem isNumber_ofInt (n : ℤ) : isNumber (ofInt n) = true := by cases n <;> rfl

theorem get_setOptional (m : CoseKeyMap) (key k : Item) (value : Option Item) :
    (setOptional m key value).get k = if k = key then value.or (m.get k) else m.get k := by
  cases value with
  | none => simp [setOptional]
  | some value => simp [setOptional, OrderedMap.get_set]

/-! ## The map of options -/

section mapOfOptions

variable (options : CoseKeyOptions)

theorem get_keyType :
    (mapOfOptions options).get CoseKeyParameter.keyType = some options.keyType := by
  simp +decide [mapOfOptions, get_setOptional]

theorem get_keyId : (mapOfOptions options).get CoseKeyParameter.keyId =
    options.keyId.map fun keyId => .bytes (stringToBytes keyId) := by
  simp +decide [mapOfOptions, get_setOptional, OrderedMap.get_set_of_ne]

theorem get_algorithm :
    (mapOfOptions options).get CoseKeyParameter.algorithm = options.algorithm := by
  simp +decide [mapOfOptions, get_setOptional, OrderedMap.get_set_of_ne]

theorem get_keyOps :
    (mapOfOptions options).get CoseKeyParameter.keyOps = options.keyOps.map .array := by
  simp +decide [mapOfOptions, get_setOptional, OrderedMap.get_set_of_ne]

theorem get_baseIv :
    (mapOfOptions options).get CoseKeyParameter.baseIv = options.baseIv.map .bytes := by
  simp +decide [mapOfOptions, get_setOptional, OrderedMap.get_set_of_ne]

theorem get_curveOrK : (mapOfOptions options).get CoseKeyParameter.curveOrK =
    (options.k.map .bytes).or options.curve := by
  simp +decide [mapOfOptions, get_setOptional, OrderedMap.get_set_of_ne]

theorem get_x : (mapOfOptions options).get CoseKeyParameter.x = options.x.map .bytes := by
  simp +decide [mapOfOptions, get_setOptional, OrderedMap.get_set_of_ne]

theorem get_y : (mapOfOptions options).get CoseKeyParameter.y = options.y.map .bytes := by
  simp +decide [mapOfOptions, get_setOptional, OrderedMap.get_set_of_ne]

theorem get_d : (mapOfOptions options).get CoseKeyParameter.d = options.d.map .bytes := by
  simp +decide [mapOfOptions, get_setOptional, OrderedMap.get_set_of_ne]

end mapOfOptions

/-! ## Members -/

theorem bytes_of_isBase64Url {member : Option String} (h : ∀ s, member = some s → IsBase64UrlOf s) :
    ∃ bytes, jwkToCoseKey.bytes member = .ok bytes ∧
      (bytes.map Item.bytes).map coseKeyToJwkClaim.bytes = member := by
  cases member with
  | none => exact ⟨none, rfl, rfl⟩
  | some s =>
    obtain ⟨b, hb, rfl⟩ := h s rfl
    refine ⟨some b, ?_, rfl⟩
    have hne : String.ofList (Base64url.encode b) ≠ "" := by
      intro hempty
      have hnil : Base64url.encode b = Base64url.encode [] := by
        rw [← String.toList_ofList (l := Base64url.encode b), hempty]
        rfl
      exact hb (Base64url.encode_injective hnil)
    rw [jwkToCoseKey.bytes]
    · rw [String.toList_ofList, Base64url.decode_encode]
    · exact hne

theorem convertOptional_numberOf {table : List (String × ℤ)} {member : Option String}
    (h : ∀ name, member = some name → name ∈ table.map Prod.fst) :
    ∃ found : Option (String × ℤ), (∀ m ∈ found, m ∈ table) ∧ found.map Prod.fst = member ∧
      convertOptional (numberOf table) member = .ok (found.map fun m => ofInt m.2) := by
  cases member with
  | none => exact ⟨none, nofun, rfl, rfl⟩
  | some name =>
    obtain ⟨n, hn, heq⟩ := numberOf_of_mem (h name rfl)
    refine ⟨some (name, n), ?_, rfl, ?_⟩
    · rintro m hm
      cases hm
      exact hn
    · rw [convertOptional, heq]
      rfl

theorem keyOp_of_mem {jwk : Jwk} (hoct : jwk.kty ≠ some "oct") {name : String}
    (hname : name ∈ jwkCoseKeyMap.keyOps.map Prod.fst) :
    ∃ item, jwkToCoseKey.keyOp jwk name = some item ∧ coseKeyToJwkClaim.keyOp item = some name ∧
      isOneOf [1, 2, 3, 4, 5, 6, 7, 8, 9, 10] item = true := by
  obtain ⟨n, hn, heq⟩ := numberOf_of_mem hname
  refine ⟨ofInt n, ?_, keyOp_keyOps _ hn, isOneOf_keyOps _ hn⟩
  rw [jwkToCoseKey.keyOp, if_neg hoct]
  exact heq

/-- A key that is not for MACs has the operations of the JWK. -/
theorem mapM_keyOp {jwk : Jwk} (hoct : jwk.kty ≠ some "oct") {keyOps : List (Option String)}
    (h : ∀ ko ∈ keyOps, ∃ name ∈ jwkCoseKeyMap.keyOps.map Prod.fst, ko = some name) :
    ∃ items, (keyOps.mapM fun ko => ko.bind (jwkToCoseKey.keyOp jwk)) = some items ∧
      items.map coseKeyToJwkClaim.keyOp = keyOps ∧ isKeyOps (.array items) = true := by
  induction keyOps with
  | nil => exact ⟨[], rfl, rfl, rfl⟩
  | cons ko keyOps ih =>
    obtain ⟨name, hname, rfl⟩ := h ko List.mem_cons_self
    obtain ⟨item, hitem, hback, hone⟩ := keyOp_of_mem hoct hname
    obtain ⟨items, hitems, hbacks, hall⟩ := ih fun ko hko => h ko (List.mem_cons_of_mem _ hko)
    refine ⟨item :: items, ?_, ?_, ?_⟩
    · rw [List.mapM_cons, Option.bind_some, hitem, hitems]
      rfl
    · rw [List.map_cons, hback, hbacks]
    · rw [isKeyOps] at hall ⊢
      rw [List.all_cons, hone, hall]
      rfl

theorem convertOptional_keyOps {jwk : Jwk} (hoct : jwk.kty ≠ some "oct") (h : IsJwk jwk) :
    ∃ items : Option (List Item), (∀ l ∈ items, isKeyOps (.array l) = true) ∧
      items.map (List.map coseKeyToJwkClaim.keyOp) = jwk.keyOps ∧
      convertOptional (List.mapM fun ko => ko.bind (jwkToCoseKey.keyOp jwk)) jwk.keyOps =
        .ok items := by
  cases hkeyOps : jwk.keyOps with
  | none => exact ⟨none, nofun, rfl, rfl⟩
  | some keyOps =>
    obtain ⟨items, hitems, hback, hall⟩ := mapM_keyOp hoct (h.keyOps keyOps hkeyOps)
    refine ⟨some items, ?_, congrArg some hback, ?_⟩
    · rintro l hl
      cases hl
      exact hall
    · rw [convertOptional, hitems]

/-! ## The conversions -/

/-- The type of a key. -/
theorem keyType_fromJwk {jwk : Jwk} {m : CoseKeyMap} (h : fromJwk jwk = .ok m) :
    ∃ kty, jwk.kty = some kty ∧ CoseKeyMap.keyType m = jwkToCoseKey.kty kty := by
  obtain ⟨options, hoptions, hcreate⟩ := bind_eq_ok.mp h
  unfold optionsFromJwk at hoptions
  split at hoptions
  · cases hoptions
  · next kty hkty =>
    obtain ⟨x, -, hoptions⟩ := bind_eq_ok.mp hoptions
    obtain ⟨y, -, hoptions⟩ := bind_eq_ok.mp hoptions
    obtain ⟨d, -, hoptions⟩ := bind_eq_ok.mp hoptions
    obtain ⟨k, -, hoptions⟩ := bind_eq_ok.mp hoptions
    obtain ⟨algorithm, -, hoptions⟩ := bind_eq_ok.mp hoptions
    obtain ⟨curve, -, hoptions⟩ := bind_eq_ok.mp hoptions
    obtain ⟨keyOps, -, hoptions⟩ := bind_eq_ok.mp hoptions
    cases hoptions
    unfold CoseKeyMap.create at hcreate
    split at hcreate
    · cases hcreate
      refine ⟨kty, hkty, ?_⟩
      rw [CoseKeyMap.keyType, CoseKeyMap.toCoseKey, get_keyType]
      rfl
    · cases hcreate

/-- A key for MACs has a type whose name is not that of the JWK. -/
theorem kty_oct {jwk : Jwk} {m : CoseKeyMap} (h : fromJwk jwk = .ok m)
    (hoct : jwk.kty = some "oct") :
    m.jwk.kty = some "OCT" := by
  obtain ⟨kty, hkty, hkeyType⟩ := keyType_fromJwk h
  obtain rfl : "oct" = kty := Option.some.inj (hoct.symm.trans hkty)
  have hname : nameOf jwkCoseKeyMap.kty (jwkToCoseKey.kty "oct") = some "OCT" := by decide +kernel
  rw [CoseKeyMap.jwk, hkeyType]
  exact hname

/-- A key with a curve has no octets. -/
theorem k_of_ne_oct {jwk : Jwk} {m : CoseKeyMap} (h : fromJwk jwk = .ok m)
    (hkty : jwk.kty ∈ [some "EC", some "OKP"]) :
    m.jwk.k = none := by
  obtain ⟨kty, hkty', hkeyType⟩ := keyType_fromJwk h
  have hne : CoseKeyMap.keyType m ≠ ofInt KeyType.oct.value := by
    rw [hkeyType]
    rcases List.mem_pair.mp hkty with hec | hokp
    · obtain rfl : "EC" = kty := Option.some.inj (hec.symm.trans hkty')
      decide +kernel
    · obtain rfl : "OKP" = kty := Option.some.inj (hokp.symm.trans hkty')
      decide +kernel
  rw [CoseKeyMap.jwk, CoseKeyMap.k, if_neg hne]
  rfl

theorem decode_encode (codec : Codec) {m : CoseKeyMap} (h : zCoseKey m = true) :
    m.encode codec = .ok (codec.encode m.toItem) ∧
    CoseKeyMap.decode codec (codec.encode m.toItem) = .ok m := by
  refine ⟨if_pos h, ?_⟩
  rw [CoseKeyMap.decode, cborDecode_eq (codec.decode_encode m.toItem) nofun, ok_bind]
  change (if zCoseKey (TypedMap.fromEntries m.entries) then _ else _) = _
  rw [TypedMap.fromEntries_entries, if_pos h]

theorem kty_of_ne_oct : ∀ kty ∈ ["EC", "OKP"],
    nameOf jwkCoseKeyMap.kty (jwkToCoseKey.kty kty) = some kty ∧
      isOneOf [1, 2, 4, 0] (jwkToCoseKey.kty kty) = true ∧
      (jwkToCoseKey.kty kty = ofInt KeyType.ec.value ∨
        jwkToCoseKey.kty kty = ofInt KeyType.okp.value) ∧
      jwkToCoseKey.kty kty ≠ ofInt KeyType.oct.value := by
  decide +kernel

/-- A key that has the members of a JWK, and no octets. -/
structure Describes (options : CoseKeyOptions) (jwk : Jwk) : Prop where
  kty : ∃ kty ∈ ["EC", "OKP"], jwk.kty = some kty ∧ options.keyType = jwkToCoseKey.kty kty
  keyId : options.keyId = jwk.kid
  algorithm : ∃ found : Option (String × ℤ), (∀ m ∈ found, m ∈ jwkCoseKeyMap.alg) ∧
    found.map Prod.fst = jwk.alg ∧
    options.algorithm = found.map fun m => ofInt m.2
  keyOps : (∀ l ∈ options.keyOps, isKeyOps (.array l) = true) ∧
    options.keyOps.map (List.map coseKeyToJwkClaim.keyOp) = jwk.keyOps
  baseIv : options.baseIv = jwk.baseIv
  curve : ∃ found : Option (String × ℤ), (∀ m ∈ found, m ∈ jwkCoseKeyMap.crv) ∧
    found.map Prod.fst = jwk.crv ∧
    options.curve = found.map fun m => ofInt m.2
  x : (options.x.map Item.bytes).map coseKeyToJwkClaim.bytes = jwk.x
  y : (options.y.map Item.bytes).map coseKeyToJwkClaim.bytes = jwk.y
  d : (options.d.map Item.bytes).map coseKeyToJwkClaim.bytes = jwk.d
  k : options.k = none ∧ jwk.k = none

theorem exists_describes {jwk : Jwk} (h : IsJwk jwk) (hkty : jwk.kty ∈ [some "EC", some "OKP"])
    (hk : jwk.k = none) :
    ∃ options, optionsFromJwk jwk = .ok options ∧ Describes options jwk := by
  obtain ⟨kty, hmem, hkty'⟩ : ∃ kty ∈ ["EC", "OKP"], jwk.kty = some kty := by
    rcases List.mem_pair.mp hkty with hec | hokp
    · exact ⟨"EC", by decide, hec⟩
    · exact ⟨"OKP", by decide, hokp⟩
  have hoct : jwk.kty ≠ some "oct" := by
    rintro hoct
    rw [hoct] at hkty
    exact absurd hkty (by decide)
  obtain ⟨x, hx, hxback⟩ := bytes_of_isBase64Url h.x
  obtain ⟨y, hy, hyback⟩ := bytes_of_isBase64Url h.y
  obtain ⟨d, hd, hdback⟩ := bytes_of_isBase64Url h.d
  obtain ⟨algorithm, halg, halgname, halgorithm⟩ := convertOptional_numberOf h.alg
  obtain ⟨curve, hcrv, hcrvname, hcurve⟩ := convertOptional_numberOf h.crv
  obtain ⟨keyOps, hkeyOps, hkeyOpsback, hkeyOpseq⟩ := convertOptional_keyOps hoct h
  let options : CoseKeyOptions := {
    keyType := jwkToCoseKey.kty kty, keyId := jwk.kid, algorithm := algorithm.map fun m =>
      ofInt m.2, keyOps
    baseIv := jwk.baseIv, curve := curve.map fun m => ofInt m.2, x, y, d, k := none }
  refine ⟨options, ?_, ?_⟩
  · rw [optionsFromJwk, hkty']
    have hkbytes : jwkToCoseKey.bytes jwk.k = .ok none := hk ▸ rfl
    simp only [hx, hy, hd, hkbytes, halgorithm, hcurve, hkeyOpseq, ok_bind]
    rfl
  · exact {
      kty := ⟨kty, hmem, hkty', rfl⟩, keyId := rfl, algorithm := ⟨algorithm, halg, halgname, rfl⟩
      keyOps := ⟨hkeyOps, hkeyOpsback⟩, baseIv := rfl, curve := ⟨curve, hcrv, hcrvname, rfl⟩,
      x := hxback, y := hyback
      d := hdback, k := ⟨rfl, hk⟩ }

namespace Describes

variable {options : CoseKeyOptions} {jwk : Jwk}

theorem zCoseKey_mapOfOptions (h : Describes options jwk) :
    zCoseKey (mapOfOptions options) = true := by
  obtain ⟨kty, hmem, -, hkeyType⟩ := h.kty
  obtain ⟨algorithm, -, -, halgorithm⟩ := h.algorithm
  obtain ⟨curve, hcrv, -, hcurve⟩ := h.curve
  have hone : isOneOf [1, 2, 4, 0] options.keyType = true := hkeyType ▸ (kty_of_ne_oct kty hmem).2.1
  have hnumber : options.algorithm.all (fun item => isText item || isNumber item) = true := by
    rw [halgorithm]
    cases algorithm <;> simp [isNumber_ofInt]
  have hcurveOk : options.curve.all
      (fun item => isOneOf [1, 2, 3, 4, 5, 6, 7] item || isBytes item) = true := by
    rw [hcurve]
    cases curve with
    | none => rfl
    | some m => simp [isOneOf_crv m (hcrv m rfl)]
  have hkeyOps : (options.keyOps.map Item.array).all isKeyOps = true := by
    cases hkeyOps : options.keyOps with
    | none => rfl
    | some l => exact h.keyOps.1 l hkeyOps
  have hbytes : ∀ b : Option Bytes, (b.map Item.bytes).all isBytes = true := by
    intro b
    cases b <;> rfl
  have hkeyId : (options.keyId.map fun keyId => Item.bytes (stringToBytes keyId)).all
      (fun item => isBytes item || isText item) = true := by
    cases options.keyId <;> rfl
  rw [zCoseKey, get_keyType, get_keyId, get_algorithm, get_keyOps, get_baseIv, get_curveOrK, get_x,
    get_y, get_d, h.k.1, hnumber, hkeyOps, hbytes, hbytes, hbytes, hbytes, hkeyId, Option.any_some,
    hone, Option.map_none, Option.none_or, hcurveOk]
  rfl

theorem jwk_mapOfOptions (h : Describes options jwk) :
    CoseKeyMap.jwk (mapOfOptions options) = jwk := by
  obtain ⟨kty, hmem, hkty, hkeyType⟩ := h.kty
  obtain ⟨algorithm, halg, halgname, halgorithm⟩ := h.algorithm
  obtain ⟨curve, hcrv, hcrvname, hcurve⟩ := h.curve
  obtain ⟨hname, -, hcurved, hoct⟩ := kty_of_ne_oct kty hmem
  have htype : CoseKeyMap.keyType (mapOfOptions options) = jwkToCoseKey.kty kty := by
    rw [CoseKeyMap.keyType, CoseKeyMap.toCoseKey, get_keyType, ← hkeyType]
    rfl
  ext1
  · change nameOf jwkCoseKeyMap.kty (CoseKeyMap.keyType (mapOfOptions options)) = jwk.kty
    rw [htype, hname, hkty]
  · change CoseKeyMap.keyId (mapOfOptions options) = jwk.kid
    rw [CoseKeyMap.keyId, get_keyId, h.keyId]
    cases jwk.kid with
    | none => rfl
    | some kid => simp [textOfBytes, bytesToString_stringToBytes]
  · change (((mapOfOptions options).get CoseKeyParameter.algorithm).filter truthy).bind
      (nameOf coseKeyJwkAlg) = jwk.alg
    rw [get_algorithm, halgorithm, ← halgname]
    cases algorithm with
    | none => rfl
    | some m => simp [Option.filter, truthy_alg m (halg m rfl), nameOf_alg m (halg m rfl)]
  · change ((mapOfOptions options).get CoseKeyParameter.keyOps).map coseKeyToJwkClaim.keyOps =
      jwk.keyOps
    rw [get_keyOps, ← h.keyOps.2, Option.map_map]
    rfl
  · change ((mapOfOptions options).get CoseKeyParameter.baseIv).bind _ = jwk.baseIv
    rw [get_baseIv, h.baseIv]
    cases jwk.baseIv <;> rfl
  · change (CoseKeyMap.toCoseKey (mapOfOptions options)).curve.bind
      (nameOf jwkCoseKeyMap.crv) = jwk.crv
    rw [CoseKey.curve, if_pos (by rw [← htype] at hcurved; exact hcurved)]
    change ((mapOfOptions options).get CoseKeyParameter.curveOrK).bind _ = _
    rw [get_curveOrK, h.k.1, Option.map_none, Option.none_or, hcurve, ← hcrvname]
    cases curve with
    | none => rfl
    | some m => exact nameOf_crv m (hcrv m rfl)
  · change ((mapOfOptions options).get CoseKeyParameter.x).map coseKeyToJwkClaim.bytes = jwk.x
    rw [get_x, h.x]
  · change ((mapOfOptions options).get CoseKeyParameter.y).map coseKeyToJwkClaim.bytes = jwk.y
    rw [get_y, h.y]
  · change ((mapOfOptions options).get CoseKeyParameter.d).map coseKeyToJwkClaim.bytes = jwk.d
    rw [get_d, h.d]
  · change (CoseKeyMap.k (mapOfOptions options)).map coseKeyToJwkClaim.bytes = jwk.k
    rw [CoseKeyMap.k, if_neg (htype ▸ hoct), h.k.2]
    rfl

end Describes

/-- A JWK is converted to a key and back without loss where its type is that of a key with a curve,
and it has no octets: the name of the type of a key for MACs comes back in another case, and octets
take the place of the curve. -/
theorem roundTrips_iff (codec : Codec) {jwk : Jwk} (h : IsJwk jwk) :
    RoundTrips codec jwk ↔ jwk.kty ∈ [some "EC", some "OKP"] ∧ jwk.k = none := by
  constructor
  · rintro ⟨m, encoded, hm, hback, -, -, -⟩
    have hkty : jwk.kty ∈ [some "EC", some "OKP"] := by
      have hmem := h.kty
      simp only [List.mem_cons, List.not_mem_nil, or_false] at hmem ⊢
      rcases hmem with hec | hokp | hoct
      · exact .inl hec
      · exact .inr hokp
      · have hname : jwk.kty = some "OCT" := hback ▸ kty_oct hm hoct
        rw [hoct] at hname
        exact absurd hname (by decide)
    exact ⟨hkty, (congrArg Jwk.k hback).symm.trans (k_of_ne_oct hm hkty)⟩
  · rintro ⟨hkty, hk⟩
    obtain ⟨options, hoptions, hdescribes⟩ := exists_describes h hkty hk
    have hschema := hdescribes.zCoseKey_mapOfOptions
    have hfrom : fromJwk jwk = .ok (mapOfOptions options) := by
      rw [fromJwk, hoptions, ok_bind, CoseKeyMap.create, if_pos hschema]
    have hback := hdescribes.jwk_mapOfOptions
    obtain ⟨hencode, hdecode⟩ := decode_encode codec hschema
    have hreconverts : ReconvertsTo codec (mapOfOptions options)
        (codec.encode (mapOfOptions options).toItem) :=
      ⟨mapOfOptions options, hback.symm ▸ hfrom, hencode⟩
    exact ⟨_, _, hfrom, hback, hencode, hreconverts, _, hdecode, hreconverts⟩

/-- A key with a curve, its coordinates, and operations. -/
def ecJwk : Jwk where
  kty := some "EC"
  kid := some "key"
  alg := some "ES256"
  keyOps := some [some "sign", some "verify"]
  crv := some "P-256"
  x := some "AQ"
  y := some "Ag"

theorem isJwk_ecJwk : IsJwk ecJwk where
  kty := by decide
  crv := by
    rintro crv hcrv
    obtain rfl : "P-256" = crv := Option.some.inj hcrv
    decide
  alg := by
    rintro alg halg
    obtain rfl : "ES256" = alg := Option.some.inj halg
    decide
  keyOps := by
    rintro keyOps hkeyOps ko hko
    obtain rfl : [some "sign", some "verify"] = keyOps := Option.some.inj hkeyOps
    rcases List.mem_pair.mp hko with rfl | rfl
    · exact ⟨"sign", by decide, rfl⟩
    · exact ⟨"verify", by decide, rfl⟩
  x := by
    rintro s hs
    obtain rfl : "AQ" = s := Option.some.inj hs
    exact ⟨[1], nofun, by decide +kernel⟩
  y := by
    rintro s hs
    obtain rfl : "Ag" = s := Option.some.inj hs
    exact ⟨[2], nofun, by decide +kernel⟩
  d := nofun
  k := nofun

theorem ecJwk_roundTrips : RoundTrips shortest ecJwk :=
  (roundTrips_iff shortest isJwk_ecJwk).mpr ⟨by decide, rfl⟩

/-- A key for MACs that comes back with the type `OCT`. -/
theorem octJwk_not_roundTrips : ∃ jwk : Jwk, jwk.kty = some "oct" ∧ jwk.k = some "AQ" ∧ IsJwk jwk ∧
    ¬ RoundTrips shortest jwk := by
  refine ⟨{ kty := some "oct", k := some "AQ" }, rfl, rfl, ?_, ?_⟩
  · refine ⟨by decide, nofun, nofun, nofun, nofun, nofun, nofun, ?_⟩
    rintro s hs
    obtain rfl : "AQ" = s := Option.some.inj hs
    exact ⟨[1], nofun, by decide +kernel⟩
  · rintro ⟨m, encoded, hm, hback, -, -, -⟩
    have hname := (congrArg Jwk.kty hback).symm.trans (kty_oct hm rfl)
    exact absurd hname (by decide)

end IdentityCommon.Cose
