import Mathlib.Tactic.FinCases
import IdentityCommon.Cose.Sign1

/-!
# Algorithms and keys

The algorithm that the callbacks of a signature are handed, and the key that it is used with.

## Main definitions

- `DefinedFor` — the key types and the curves that an algorithm is defined for
- `Sound` — an algorithm that is registered, and a key that it is defined for
- `IsName` — an algorithm that is given by its name

## Main results

- `handsSound_iff` — both callbacks are handed a sound algorithm and key, other than for names, and
  for the values in a header that count as false
-/

namespace IdentityCommon.Cose

open IdentityCommon.Cbor IdentityCommon.Except

/-- The algorithms of elliptic curves. -/
def curveAlgorithms : List ℤ := [-7, -35, -36, -9, -51, -52, -8, -19, -53]

/-- The algorithms that are polymorphic take several curves; those that are fully specified take
one. -/
inductive DefinedFor : ℤ → KeyType → Curve → Prop
  | ecdsa {algorithm : ℤ} {curve : Curve} (halgorithm : algorithm ∈ [-7, -35, -36])
      (hcurve : curve ∈ [Curve.p256, .p384, .p521]) : DefinedFor algorithm .ec curve
  | esp256 : DefinedFor (-9) .ec .p256
  | esp384 : DefinedFor (-51) .ec .p384
  | esp512 : DefinedFor (-52) .ec .p521
  | eddsa {curve : Curve} (hcurve : curve ∈ [Curve.ed25519, .ed448]) : DefinedFor (-8) .okp curve
  | ed25519 : DefinedFor (-19) .okp .ed25519
  | ed448 : DefinedFor (-53) .okp .ed448

/-- `undefined`. -/
def undefinedItem : Item := .simple 23

/-- An algorithm that is absent, or the number of a registered one, with a key that it is defined
for. -/
def Sound (algorithm : Option Item) (key : CoseKey) : Prop :=
  ∀ a, algorithm = some a → a ≠ undefinedItem → ∃ m ∈ SignatureAlgorithm, a = ofInt m.2 ∧
    (m.2 ∈ curveAlgorithms → ∃ keyType curve, key.keyType = ofInt keyType.value ∧
      key.curve = some (ofInt curve.value) ∧
      DefinedFor m.2 keyType curve)

/-- The name of a registered algorithm. -/
def IsName (algorithm : Item) : Prop := ∃ m ∈ SignatureAlgorithm, algorithm = .text m.1

/-! ## Keys -/

/-- A key that is not rejected is one that the algorithm is defined for. -/
theorem definedFor_of_assert {key : CoseKey} {n : ℤ} {u : Unit}
    (h : assertKeyMatchesAlgorithm key (some (ofInt n)) = .ok u) (hn : n ∈ curveAlgorithms) :
    ∃ keyType curve, key.keyType = ofInt keyType.value ∧ key.curve = some (ofInt curve.value) ∧
      DefinedFor n keyType curve := by
  have hkey : ∀ {keyType : KeyType} {curves : List Curve}, signatureAlgorithmKeys.lookup (ofInt n) =
      some (keyType, curves) →
      key.keyType = ofInt keyType.value ∧
      ∃ curve ∈ curves, key.curve = some (ofInt curve.value) := by
    intro keyType curves hlookup
    rw [assertKeyMatchesAlgorithm, hlookup] at h
    dsimp only at h
    split_ifs at h with hmatches
    obtain ⟨htype, hcurve⟩ := hmatches
    obtain ⟨value, hvalue, hmem⟩ := (Option.any_eq_true _ _).mp hcurve
    obtain ⟨curve, hcurve, rfl⟩ := List.mem_map.mp (of_decide_eq_true hmem)
    exact ⟨htype, curve, hcurve, hvalue⟩
  have hfound : ∀ {keyType : KeyType} {curves : List Curve}, signatureAlgorithmKeys.lookup
      (ofInt n) = some (keyType, curves) →
      (∀ curve ∈ curves, DefinedFor n keyType curve) →
        ∃ keyType curve, key.keyType = ofInt keyType.value ∧ key.curve = some (ofInt curve.value) ∧
          DefinedFor n keyType curve := by
    intro keyType curves hlookup hdefined
    obtain ⟨htype, curve, hcurve, hvalue⟩ := hkey hlookup
    exact ⟨keyType, curve, htype, hvalue, hdefined curve hcurve⟩
  have hsingle : ∀ {keyType : KeyType} {curve : Curve}, DefinedFor n keyType curve →
      ∀ c ∈ [curve], DefinedFor n keyType c := by
    intro keyType curve hdefined c hc
    rw [List.mem_singleton.mp hc]
    exact hdefined
  fin_cases hn
  · exact hfound rfl fun _ => .ecdsa (by decide)
  · exact hfound rfl fun _ => .ecdsa (by decide)
  · exact hfound rfl fun _ => .ecdsa (by decide)
  · exact hfound rfl (hsingle .esp256)
  · exact hfound rfl (hsingle .esp384)
  · exact hfound rfl (hsingle .esp512)
  · exact hfound rfl fun _ => .eddsa
  · exact hfound rfl (hsingle .ed25519)
  · exact hfound rfl (hsingle .ed448)

theorem ofInt_ne_text (n : ℤ) (s : String) : ofInt n ≠ .text s := by
  cases n with
  | ofNat n => exact nofun
  | negSucc n => exact nofun

theorem not_isName_ofInt (n : ℤ) : ¬ IsName (ofInt n) := by
  rintro ⟨m, _, hm⟩
  exact ofInt_ne_text n m.1 hm

/-- An algorithm among the values of the enum is the number of a registered one, or its name. -/
theorem mem_enumValues {a : Item} (h : a ∈ enumValues SignatureAlgorithm) :
    IsName a ∨ ∃ m ∈ SignatureAlgorithm, a = ofInt m.2 := by
  rcases List.mem_append.mp h with hname | hnumber
  · obtain ⟨m, hm, rfl⟩ := List.mem_map.mp hname
    exact .inl ⟨m, hm, rfl⟩
  · obtain ⟨m, hm, rfl⟩ := List.mem_map.mp hnumber
    exact .inr ⟨m, hm, rfl⟩

/-- A key that is not rejected, for a value of the enum that is no name, is sound. -/
theorem sound_of_assert {key : CoseKey} {a : Item} {u : Unit}
    (h : assertKeyMatchesAlgorithm key (some a) = .ok u) (ha : a ∈ enumValues SignatureAlgorithm)
    (hname : ¬ IsName a) : Sound (some a) key := by
  rintro _ heq _
  cases heq
  obtain ⟨m, hm, rfl⟩ := (mem_enumValues ha).resolve_left hname
  exact ⟨m, hm, rfl, definedFor_of_assert h⟩

theorem not_isName_of_sound {key : CoseKey} {a : Item} (h : Sound (some a) key) : ¬ IsName a := by
  rintro ⟨m, _, rfl⟩
  obtain ⟨m', _, heq, _⟩ := h _ rfl nofun
  exact ofInt_ne_text m'.2 m.1 heq.symm

theorem truthy_ofInt {m : String × ℤ} (hm : m ∈ SignatureAlgorithm) :
    truthy (ofInt m.2) = true := by
  fin_cases hm <;> rfl

/-! ## The two callbacks -/

namespace Sign1

variable {codec : Codec}

/-- A value in a header that is accepted as an algorithm: a name, or one that counts as false. -/
def Mistaken (a : Item) : Prop := IsName a ∨ (truthy a = false ∧ a ≠ undefinedItem)

theorem verifyRequest_sound_iff {sign1 : Sign1} {key : CoseKey} {options : Supplied}
    {request : VerifyRequest} (h : verifyRequest codec sign1 key options = .ok request) :
    Sound request.algorithm request.key ↔
      ∀ a, sign1.protectedHeaders.headers.get RegisteredCwtHeaderClaimKey.algorithm = some a →
      ¬ Mistaken a := by
  rw [verifyRequest] at h
  split_ifs at h
  obtain ⟨algorithm, halgorithm, h⟩ := bind_eq_ok.mp h
  obtain ⟨_, hassert, h⟩ := bind_eq_ok.mp h
  obtain ⟨_, _, h⟩ := bind_eq_ok.mp h
  cases h
  rw [Sign1.algorithm, algorithmOf] at halgorithm
  cases hget : sign1.protectedHeaders.headers.get RegisteredCwtHeaderClaimKey.algorithm with
  | none =>
    rw [hget] at halgorithm
    cases halgorithm
    refine iff_of_true (fun a heq => ?_) fun a heq => ?_
    · cases heq
    · cases heq
  | some a =>
    rw [hget] at halgorithm
    dsimp only at halgorithm
    split_ifs at halgorithm with hrejected
    cases halgorithm
    simp only [Option.some.injEq, forall_eq']
    constructor
    · rintro hsound (hname | ⟨hfalse, hdefined⟩)
      · exact not_isName_of_sound hsound hname
      · obtain ⟨m, hm, rfl, _⟩ := hsound a rfl hdefined
        rw [truthy_ofInt hm] at hfalse
        cases hfalse
    · intro hmistaken
      obtain ⟨hname, hfalse⟩ := not_or.mp hmistaken
      cases htruthy : truthy a with
      | true =>
        have hmem : a ∈ enumValues SignatureAlgorithm :=
          by_contra fun hnot => hrejected ⟨htruthy, hnot⟩
        exact sound_of_assert hassert hmem hname
      | false =>
        rintro _ heq hdefined
        cases heq
        exact absurd ⟨htruthy, hdefined⟩ hfalse

theorem signRequest_sound_iff {sign1 : Sign1} {signingKey : CoseKey} {algorithm : Option Item}
    {options : Supplied} {request : SignRequest}
    (h : signRequest codec sign1 signingKey algorithm options = .ok request) :
    Sound (some request.algorithm) request.key ↔ ∀ a, algorithm.or signingKey.algorithm = some a →
    ¬ IsName a := by
  obtain ⟨payload, _, h⟩ := bind_eq_ok.mp h
  split at h
  · cases h
  · next signatureAlgorithm hsome =>
    obtain ⟨hgiven, _⟩ := Option.filter_eq_some_iff.mp hsome
    split_ifs at h with hmem
    obtain ⟨_, hassert, h⟩ := bind_eq_ok.mp h
    obtain ⟨_, _, h⟩ := bind_eq_ok.mp h
    cases h
    rw [hgiven]
    simp only [Option.some.injEq, forall_eq']
    exact ⟨not_isName_of_sound, sound_of_assert hassert hmem⟩

/-- What the two callbacks are handed is sound, exactly where the algorithm in the header is no name
and no value that counts as false, and where the algorithm of the option or the key is no name. -/
theorem handsSound_iff (codec : Codec) (sign1 : Sign1) (key : CoseKey) (options : Supplied) :
    (∀ request, verifyRequest codec sign1 key options = .ok request →
      (Sound request.algorithm request.key ↔
        ∀ a, sign1.protectedHeaders.headers.get RegisteredCwtHeaderClaimKey.algorithm =
          some a → ¬ Mistaken a)) ∧
    (∀ algorithm request, signRequest codec sign1 key algorithm options = .ok request →
      (Sound (some request.algorithm) request.key ↔
        ∀ a, algorithm.or key.algorithm = some a → ¬ IsName a)) :=
  ⟨fun _ => verifyRequest_sound_iff, fun _ _ => signRequest_sound_iff⟩

/-! ## Headers of a signature -/

def anyHeaders : HeaderClass where
  name := "protectedHeadersSchema"
  check := fun _ => true

/-- A signature with an algorithm in its header. -/
def withAlgorithm (algorithm : Item) : Sign1 where
  protectedHeaders := {
    schema := anyHeaders
    headers := TypedMap.fromEntries [(RegisteredCwtHeaderClaimKey.algorithm, algorithm)]
    originalEncodedStructure := none }
  unprotectedHeaders := { schema := anyHeaders, headers := OrderedMap.empty }
  payload := some [1]
  signature := [1]

def p384Key : CoseKey where
  keyType := ofInt KeyType.ec.value
  algorithm := none
  curveOrK := some (ofInt Curve.p384.value)

theorem es256_sound :
    ∃ request, verifyRequest shortest (withAlgorithm (ofInt (-7))) p384Key {} = .ok request ∧
    Sound request.algorithm request.key := by
  refine ⟨_, rfl, ((handsSound_iff shortest (withAlgorithm (ofInt (-7))) p384Key {}).1 _ rfl).mpr
    fun a ha => ?_⟩
  obtain rfl : ofInt (-7) = a := Option.some.inj ha
  rintro (hname | ⟨hfalse, _⟩)
  · exact not_isName_ofInt (-7) hname
  · cases hfalse

/-- The name of an algorithm is handed to the callback, with a key that the algorithm is not defined
for. -/
theorem name_unsound :
    ∃ request, verifyRequest shortest (withAlgorithm (.text "ESP256")) p384Key {} = .ok request ∧
    ¬ Sound request.algorithm request.key :=
  ⟨_, rfl, fun hsound => not_isName_of_sound hsound ⟨("ESP256", -9), by decide, rfl⟩⟩

end Sign1

end IdentityCommon.Cose
