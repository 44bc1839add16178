import IdentityCommon.SdJwt.KeyBinding

/-!
# Both verifications of an SD-JWT

The verification that fails at the first error and the one that collects the errors. They make the
same checks, but for the reserved names, which only the first one looks for among the claims.

## Main definitions

- `SdJwtInstance.Checked` — an SD-JWT passes the checks that both verifications make

## Main results

- `safeVerify_eq_ok`, `verify_eq_ok` — when each of the verifications is successful
- `verifyAgrees_iff` — the verifications agree just when no reserved name is in the claims of an
  SD-JWT that passes the checks
-/

namespace IdentityCommon.SdJwt

open Ecma Value AssocList IdentityCommon.Except

namespace SdJwtInstance

variable {config : SdJwtConfig} {now : Number} {s : String} {x : SdJwt} {hasher : Hasher}
  {options : VerifierOptions} {r : Verified}

/-- An SD-JWT passes the checks that both verifications make: `r` is what they return. -/
structure Checked (config : SdJwtConfig) (now : Number) (x : SdJwt) (hasher : Hasher)
    (options : VerifierOptions) (r : Verified) : Prop where
  hasPayload : (x.jwt.bind fun jwt => Jwt.part jwt.payload).isSome
  signature : ∃ jwt payload, x.jwt = some jwt ∧
    verifyJwt config now jwt { options with skipJwtClaimValidation := true } =
      .ok (payload, r.header)
  claims : x.getClaims hasher = .ok r.payload
  registered : validateJwtPayload r.payload options now .jwt = .ok ()
  required : requireClaims x hasher options = .ok ()
  keyBinding : verifyKeyBinding config now x r.payload hasher options = .ok r.kb

/-! ## The first error -/

theorem validateReservedFieldsInternal_eq_ok {payload : Value} :
    validateReservedFieldsInternal payload = .ok () ↔ reservedName payload = none := by
  unfold validateReservedFieldsInternal
  cases reservedName payload with
  | none => exact ⟨fun _ => rfl, fun _ => rfl⟩
  | some key => exact ⟨nofun, nofun⟩

theorem validate_eq_ok {claims : Value} {header : Option Value}
    (hhasher : config.hasher = some hasher) (hx : SdJwt.fromEncode s hasher = .ok x) :
    validate config now s options = .ok (claims, header) ↔
      (∃ jwt payload, x.jwt = some jwt ∧
        verifyJwt config now jwt { options with skipJwtClaimValidation := true } =
          .ok (payload, header)) ∧
      x.getClaims hasher = .ok claims ∧ reservedName claims = none ∧
      validateJwtPayload claims options now .jwt = .ok () := by
  rw [validate, requireHasher_eq_ok.mpr hhasher, ok_bind, hx, ok_bind]
  cases hjwt : x.jwt with
  | none =>
    refine iff_of_false (fun h => by cases h) ?_
    rintro ⟨⟨jwt, payload, hsome, -⟩, -⟩
    cases hsome
  | some jwt =>
    dsimp only
    constructor
    · intro h
      obtain ⟨⟨payload, header'⟩, hverify, h⟩ := bind_eq_ok.mp h
      obtain ⟨claims', hclaims, h⟩ := bind_eq_ok.mp h
      obtain ⟨⟨⟩, hreserved, h⟩ := bind_eq_ok.mp h
      obtain ⟨⟨⟩, hregistered, h⟩ := bind_eq_ok.mp h
      cases h
      exact ⟨⟨jwt, payload, rfl, hverify⟩, hclaims,
        validateReservedFieldsInternal_eq_ok.mp hreserved, hregistered⟩
    · rintro ⟨⟨jwt', payload, hsome, hverify⟩, hclaims, hreserved, hregistered⟩
      cases hsome
      rw [hverify, ok_bind]
      dsimp only
      rw [hclaims, ok_bind, validateReservedFieldsInternal_eq_ok.mpr hreserved,
        ok_bind, hregistered]
      rfl

/-- The first verification is successful for an SD-JWT that passes the checks and has no reserved
name in its claims. -/
theorem verify_eq_ok : verify config now s options = .ok r ↔
    ∃ hasher x, config.hasher = some hasher ∧ SdJwt.fromEncode s hasher = .ok x ∧
      Checked config now x hasher options r ∧ reservedName r.payload = none := by
  rw [verify, verifyWith_eq_ok]
  constructor
  · rintro ⟨hasher, x, hhasher, hx, hpayload, hvalidate, hrequired, hkb⟩
    obtain ⟨hsignature, hclaims, hreserved, hregistered⟩ := (validate_eq_ok hhasher hx).mp hvalidate
    exact ⟨hasher, x, hhasher, hx, ⟨hpayload, hsignature, hclaims, hregistered, hrequired, hkb⟩,
      hreserved⟩
  · rintro ⟨hasher, x, hhasher, hx, h, hreserved⟩
    exact ⟨hasher, x, hhasher, hx, h.hasPayload,
      (validate_eq_ok hhasher hx).mpr ⟨h.signature, h.claims, hreserved, h.registered⟩,
        h.required, h.keyBinding⟩

/-! ## All errors -/

theorem decodeSafely_eq {errors : List VerificationError} :
    decodeSafely s hasher = (some x, errors) ↔ SdJwt.fromEncode s hasher = .ok x ∧
      errors = if (x.jwt.bind fun jwt => Jwt.part jwt.payload).isSome then []
        else [⟨"INVALID_SD_JWT", "Invalid SD JWT: missing JWT or payload"⟩] := by
  unfold decodeSafely
  cases SdJwt.fromEncode s hasher with
  | error e => exact ⟨nofun, nofun⟩
  | ok x' =>
    constructor
    · intro h
      cases h
      exact ⟨rfl, rfl⟩
    · rintro ⟨hx, rfl⟩
      cases hx
      rfl

/-- No error is collected from the signature and the claims when each of the checks succeeds. -/
theorem validateSafely_eq {jwt : Jwt} (hjwt : x.jwt = some jwt) {header claims : Option Value} :
    validateSafely config now x hasher options = (header, claims, []) ↔
      ∃ payload claims', claims = some claims' ∧
        verifyJwt config now jwt { options with skipJwtClaimValidation := true } =
          .ok (payload, header) ∧
        x.getClaims hasher = .ok claims' ∧
        validateJwtPayload claims' options now .jwt = .ok () := by
  unfold validateSafely
  rw [hjwt]
  dsimp only
  cases verifyJwt config now jwt { options with skipJwtClaimValidation := true } with
  | error e => exact ⟨nofun, fun ⟨_, _, _, h, _⟩ => nomatch h⟩
  | ok result =>
    obtain ⟨payload, header'⟩ := result
    cases x.getClaims hasher with
    | error e => exact ⟨nofun, fun ⟨_, _, _, _, h, _⟩ => nomatch h⟩
    | ok claims' =>
      dsimp only
      cases hregistered : validateJwtPayload claims' options now .jwt with
      | error e =>
        refine ⟨nofun, ?_⟩
        rintro ⟨_, claims'', rfl, _, hclaims, h⟩
        cases hclaims
        rw [hregistered] at h
        cases h
      | ok =>
        constructor
        · intro h
          cases h
          exact ⟨payload, claims', rfl, rfl, rfl, hregistered⟩
        · rintro ⟨payload', claims'', rfl, hverify, hclaims, -⟩
          cases hverify
          cases hclaims
          rfl

theorem requiredSafely_eq_nil :
    requiredSafely x hasher options = [] ↔ requireClaims x hasher options = .ok () := by
  unfold requiredSafely requireClaims
  cases options.requiredClaimKeys with
  | none => exact ⟨fun _ => rfl, fun _ => rfl⟩
  | some requiredClaimKeys =>
    dsimp only
    cases missingKeys x hasher requiredClaimKeys with
    | error e => exact ⟨nofun, nofun⟩
    | ok missing =>
      cases missing with
      | nil => exact ⟨fun _ => rfl, fun _ => rfl⟩
      | cons key missing => exact ⟨nofun, nofun⟩

/-- No error is collected from the key binding when it is valid. -/
theorem keyBindingSafely_eq {payload : Value} {kb : Option (Value × Value)} :
    keyBindingSafely config now x (some payload) hasher options = (kb, []) ↔
      verifyKeyBinding config now x payload hasher options = .ok kb := by
  unfold keyBindingSafely verifyKeyBinding
  cases nonEmpty options.keyBindingNonce with
  | none => exact ⟨fun h => congrArg Except.ok (Prod.mk.inj h).1,
      fun h => congrArg (·, []) (Except.ok.inj h)⟩
  | some nonce =>
    dsimp only
    cases x.kbJwt with
    | none => exact iff_of_false (fun h => by cases h) (error_ne_ok _ _)
    | some kbJwt =>
      dsimp only
      cases config.kbVerifier with
      | none => exact iff_of_false (fun h => by cases h) (error_ne_ok _ _)
      | some kbVerifier =>
        dsimp only
        cases kbJwt.verifyKb kbVerifier payload nonce options now with
        | error e => exact iff_of_false (fun h => by cases h) (error_ne_ok _ _)
        | ok kb' =>
          rw [ok_bind]
          dsimp only
          cases sdHash x hasher with
          | error e => exact iff_of_false (fun h => by cases h) (error_ne_ok _ _)
          | ok sdHashStr =>
            rw [ok_bind]
            dsimp only
            -- the hash in the key binding JWT, when it is a string
            split
            case h_1 sdHashFromKb _ =>
              by_cases heq : sdHashStr = sdHashFromKb
              · rw [if_pos heq, if_pos heq]
                exact ⟨fun h => congrArg Except.ok (Prod.mk.inj h).1,
                  fun h => congrArg (·, []) (Except.ok.inj h)⟩
              · rw [if_neg heq, if_neg heq]
                exact iff_of_false (fun h => by cases h) (error_ne_ok _ _)
            case h_2 => exact iff_of_false (fun h => by cases h) (error_ne_ok _ _)

/-- Without a verifier no signature is valid. -/
theorem Checked.exists_verifier (h : Checked config now x hasher options r) :
    ∃ verifier, config.verifier = some verifier := by
  obtain ⟨jwt, payload, -, hverify⟩ := h.signature
  unfold verifyJwt at hverify
  cases hverifier : config.verifier with
  | some verifier => exact ⟨verifier, rfl⟩
  | none =>
    rw [hverifier] at hverify
    cases hverify

theorem decodeSafely_none {errors : List VerificationError}
    (h : decodeSafely s hasher = (none, errors)) :
    ∃ e, SdJwt.fromEncode s hasher = .error e := by
  unfold decodeSafely at h
  cases hx : SdJwt.fromEncode s hasher with
  | error e => exact ⟨e, rfl⟩
  | ok x =>
    rw [hx] at h
    cases h

/-- What is collected from an SD-JWT is empty when it passes the checks. -/
theorem checked_iff {errors errors' errors'' : List VerificationError}
    {header payload : Option Value} {kb : Option (Value × Value)}
    (hdecode : decodeSafely s hasher = (some x, errors))
    (hvalidate : validateSafely config now x hasher options = (header, payload, errors'))
    (hkb : keyBindingSafely config now x payload hasher options = (kb, errors'')) :
    errors ++ errors' ++ requiredSafely x hasher options ++ errors'' = [] ∧
        r = { payload := payload.getD undefined, header, kb } ↔
      Checked config now x hasher options r := by
  obtain ⟨-, herrors⟩ := decodeSafely_eq.mp hdecode
  simp only [List.append_eq_nil_iff]
  constructor
  · rintro ⟨⟨⟨⟨hnil, hnil'⟩, hrequired⟩, hnil''⟩, rfl⟩
    have hpayload : (x.jwt.bind fun jwt => Jwt.part jwt.payload).isSome := by
      by_contra hnone
      rw [if_neg hnone, hnil] at herrors
      cases herrors
    obtain ⟨part, hpart⟩ := Option.isSome_iff_exists.mp hpayload
    obtain ⟨jwt, hjwt, -⟩ := Option.bind_eq_some_iff.mp hpart
    rw [hnil'] at hvalidate
    obtain ⟨payload', claims, rfl, hverify, hclaims, hregistered⟩ :=
      (validateSafely_eq hjwt).mp hvalidate
    rw [hnil''] at hkb
    exact ⟨hpayload, ⟨jwt, payload', hjwt, hverify⟩, hclaims, hregistered,
      requiredSafely_eq_nil.mp hrequired, keyBindingSafely_eq.mp hkb⟩
  · intro h
    obtain ⟨jwt, payload', hjwt, hverify⟩ := h.signature
    have hvalid : validateSafely config now x hasher options = (r.header, some r.payload, []) :=
      (validateSafely_eq hjwt).mpr ⟨payload', r.payload, rfl, hverify, h.claims, h.registered⟩
    rw [hvalidate] at hvalid
    cases hvalid
    have hbound : (kb, errors'') = (r.kb, []) :=
      hkb.symm.trans (keyBindingSafely_eq.mpr h.keyBinding)
    cases hbound
    rw [if_pos h.hasPayload] at herrors
    exact ⟨⟨⟨⟨herrors, rfl⟩, requiredSafely_eq_nil.mpr h.required⟩, rfl⟩, rfl⟩

/-- The second verification is successful for an SD-JWT that passes the checks. -/
theorem safeVerify_eq_ok : safeVerify config now s options = .ok r ↔
    ∃ hasher x, config.hasher = some hasher ∧ SdJwt.fromEncode s hasher = .ok x ∧
      Checked config now x hasher options r := by
  unfold safeVerify
  cases hhasher : config.hasher with
  | none =>
    cases config.verifier with
    | none => exact ⟨nofun, nofun⟩
    | some verifier => exact ⟨nofun, nofun⟩
  | some hasher =>
    cases hverifier : config.verifier with
    | none =>
      refine ⟨nofun, fun ⟨_, _, _, _, h⟩ => ?_⟩
      obtain ⟨verifier, hsome⟩ := h.exists_verifier
      exact nomatch hverifier.symm.trans hsome
    | some verifier =>
      dsimp only
      rcases hdecode : decodeSafely s hasher with ⟨decoded, errors⟩
      cases decoded with
      | none =>
        obtain ⟨e, he⟩ := decodeSafely_none hdecode
        refine ⟨nofun, fun ⟨hasher', x, hsome, hx, _⟩ => ?_⟩
        cases hsome
        exact nomatch he.symm.trans hx
      | some x =>
        dsimp only
        rcases hvalidate : validateSafely config now x hasher options with ⟨header,
          payload, errors'⟩
        dsimp only
        rcases hkb : keyBindingSafely config now x payload hasher options with ⟨kb, errors''⟩
        have hchecked (r : Verified) := @checked_iff _ _ _ _ _ _ r _ _ _ _ _ _ hdecode hvalidate hkb
        dsimp only
        constructor
        · intro h
          split at h
          case h_1 hnil => exact ⟨hasher, x, rfl, (decodeSafely_eq.mp hdecode).1,
            (hchecked r).mp ⟨hnil, (Except.ok.inj h).symm⟩⟩
          case h_2 => cases h
        · rintro ⟨hasher', x', hsome, hx, h⟩
          cases hsome
          cases (decodeSafely_eq.mp hdecode).1.symm.trans hx
          obtain ⟨hnil, rfl⟩ := (hchecked r).mpr h
          rw [hnil]

/-! ## Agreement -/

/-- What one verification returns, the other one returns too. -/
def VerifyAgrees (config : SdJwtConfig) (now : Number) (s : String)
    (options : VerifierOptions) : Prop :=
  ∀ r, safeVerify config now s options = .ok r ↔ verify config now s options = .ok r

/-- Both verifications agree just when the claims of an SD-JWT that passes the checks have no
reserved name. -/
theorem verifyAgrees_iff (config : SdJwtConfig) (now : Number) (s : String)
    (options : VerifierOptions) :
    VerifyAgrees config now s options ↔
      ∀ hasher x r, config.hasher = some hasher → SdJwt.fromEncode s hasher = .ok x →
        Checked config now x hasher options r → reservedName r.payload = none := by
  constructor
  · intro h hasher x r hhasher hx hchecked
    have hverify := (h r).mp (safeVerify_eq_ok.mpr ⟨hasher, x, hhasher, hx, hchecked⟩)
    obtain ⟨-, -, -, -, -, hreserved⟩ := verify_eq_ok.mp hverify
    exact hreserved
  · intro h r
    rw [safeVerify_eq_ok, verify_eq_ok]
    constructor
    · rintro ⟨hasher, x, hhasher, hx, hchecked⟩
      exact ⟨hasher, x, hhasher, hx, hchecked, h hasher x r hhasher hx hchecked⟩
    · rintro ⟨hasher, x, hhasher, hx, hchecked, -⟩
      exact ⟨hasher, x, hhasher, hx, hchecked⟩

/-! ### A reserved name in the payload -/

/-- The header of the JWT of `decoyText`, and its payload. -/
def decoyHeader : Value := .obj [("alg", .str "ES256")]

def decoyPayload : Value := .obj [(SD_DECOY, .bool true)]

/-- An SD-JWT with a reserved name in its payload, without disclosures. -/
def decoyText : String := join [compactJwt decoyHeader decoyPayload "c2ln", ""] SD_SEPARATOR

def decoySdJwt : SdJwt :=
  { jwt := Jwt.decoded decoyHeader decoyPayload "c2ln", disclosures := some [] }

theorem fromEncode_decoyText : SdJwt.fromEncode decoyText prefixHash = .ok decoySdJwt := by
  have hjwt : Jwt.fromEncode (compactJwt decoyHeader decoyPayload "c2ln") =
      .ok (Jwt.decoded decoyHeader decoyPayload "c2ln") :=
    Jwt.fromEncode_compactJwt (.of_isJson (by decide)) (.of_isJson (by decide)) (by decide)
  refine @fromEncode_join _ _ _ [] _ _ _ _ _ _ ?_ hjwt rfl rfl .nil rfl
  simp only [List.nil_append, List.forall_mem_cons]
  exact ⟨separator_not_mem_compactJwt _ _ (by decide), by decide, nofun⟩

theorem checked_decoySdJwt : Checked prefixHashConfig 1 decoySdJwt prefixHash {}
    { payload := decoyPayload, header := some decoyHeader } where
  hasPayload := rfl
  signature := by
    refine ⟨_, some decoyPayload, rfl, ?_⟩
    show (Jwt.decoded decoyHeader decoyPayload "c2ln").verify (fun _ _ _ => .ok true)
      { skipJwtClaimValidation := true } 1 = _
    exact @Jwt.verify_skipped _ _ _ _ "ES256" "c2ln" _ rfl rfl rfl rfl rfl
      (Jwt.getUnsignedToken_decoded (by decide) rfl rfl) rfl
  claims := rfl
  registered := rfl
  required := rfl
  keyBinding := rfl

/-- Only one of the verifications is successful. -/
theorem not_verifyAgrees_decoyText :
    decoyText = "eyJhbGciOiJFUzI1NiJ9.eyJfc2RfZGVjb3kiOnRydWV9.c2ln~" ∧
    ¬ VerifyAgrees prefixHashConfig 1 decoyText {} := by
  refine ⟨by decide +kernel, fun h => ?_⟩
  have hsafe : safeVerify prefixHashConfig 1 decoyText {} =
      .ok { payload := decoyPayload, header := some decoyHeader } :=
    safeVerify_eq_ok.mpr ⟨prefixHash, decoySdJwt, rfl, fromEncode_decoyText, checked_decoySdJwt⟩
  obtain ⟨-, -, -, -, -, hreserved⟩ := verify_eq_ok.mp ((h _).mp hsafe)
  cases hreserved

end SdJwtInstance

end IdentityCommon.SdJwt
