import IdentityCommon.Jose.ParseJws
import IdentityCommon.Jose.VerifyJws

/-!
# The signer that is established from a signed header

What signing makes sure of about the header, and the signer that a verifier establishes from it.

## Main definitions

- `IdentifiesOnly` — a header that does not contradict the signer
- `SameJwk`, `SameSigner` — the same key, and a signer of the same method with the same key

## Main results

- `identifiesOnly_of_assert` — what signing makes sure of
- `exists_found` — where an established signer comes from
- `signerFromHeader_signed` — the signer that is established is the signer that signed
-/

namespace IdentityCommon.Jose

open Ecma AssocList Value Json Common IdentityCommon.Except

/-! ## The same signer -/

/-- The members that a thumbprint is made of are the same; for a type of key without any, all
members. -/
structure SameJwk (signerJwk jwk : Value) : Prop where
  thumbprint : thumbprintComponents jwk = thumbprintComponents signerJwk
  members : thumbprintComponents jwk = none →
    ∀ name ∈ definedMembers jwk, stringify (jwk.get name) = stringify (signerJwk.get name)

/-- An established signer has the method of the signer and identifies its key, or is established out
of band. A DID URL that is only a fragment is resolved against a DID that issued the payload. -/
def SameSigner (issuer : Option String) : JwsSigner → JwsSigner → Prop
  | _, .custom .. => True
  | .did didUrl _ _, .did didUrl' _ _ => didUrl' = didUrl ∨
      startsWith didUrl "#" ∧ ∃ iss, issuer = some iss ∧ startsWith iss "did:" ∧
      didUrl' = iss ++ didUrl
  | .x5c x5c _ _, .x5c x5c' _ _ => x5c' = x5c
  | .jwk jwk _ _, .jwk jwk' _ _ => SameJwk jwk jwk'
  | .federation trustChain _ kid, .federation trustChain' _ kid' =>
      kid' = kid ∧ ∀ chain, trustChain = some chain → trustChain' = some chain
  | _, _ => False

/-! ## What signing makes sure of -/

/-- A `kid` that is a DID URL, or a fragment where a DID issued the payload. -/
def KidIdentifiesDid (kid : Option String) (issuer : Option String) : Prop :=
  ∃ k, kid = some k ∧ (startsWith k "did:" ∨ startsWith k "#" ∧ ∃ iss, issuer = some iss ∧
    startsWith iss "did:")

/-- The parameters that identify a signer agree with those of the signer, and there are none of
another method. -/
structure IdentifiesOnly (header : SignerHeader) (signer : JwsSigner)
    (issuer : Option String) : Prop where
  kid : ∀ kid kid', header.kid = some kid →
    (jwsHeaderFromSigner signer).kid = some kid' → kid = kid'
  x5c : ∀ x5c x5c', header.x5c = some x5c →
    (jwsHeaderFromSigner signer).x5c = some x5c' → x5c = x5c'
  trustChain : ∀ chain chain', header.trustChain = some chain →
    (jwsHeaderFromSigner signer).trustChain = some chain' → chain = chain'
  jwk : ∀ jwk jwk', header.jwk = some jwk → (jwsHeaderFromSigner signer).jwk = some jwk' →
    isSameKey jwk jwk' = true
  methodX5c : header.x5c ≠ none → signer.method = "x5c"
  methodFederation : header.trustChain ≠ none → signer.method = "federation"
  methodDid : KidIdentifiesDid header.kid issuer → signer.method = "did"
  methodJwk : header.jwk ≠ none → signer.method = "jwk"

theorem same_of_not_differ {α : Type} {same : α → α → Bool} {a b : Option α}
    (h : ¬ differ same a b = true) {x y : α} (ha : a = some x) (hb : b = some y) :
    same x y = true := by
  subst ha hb
  rw [Bool.not_eq_true] at h
  simpa [differ] using h

/-- A header that is signed does not contradict the signer. -/
theorem identifiesOnly_of_assert {protectedHeader : Value} {signer : JwsSigner}
    {issuer : Option String}
    (h : assertHeaderIdentifiesSigner protectedHeader signer issuer = .ok ())
    (hcustom : signer.method ≠ "custom") :
    IdentifiesOnly (signerParameters protectedHeader) signer issuer := by
  unfold assertHeaderIdentifiesSigner at h
  dsimp only at h
  split_ifs at h with hkid hx5c hchain hjwk
  split at h
  case h_1 => cases h
  case h_2 hother =>
    have hnone := List.find?_eq_none.mp (Option.map_eq_none_iff.mp hother)
    have hmethod : ∀ {parameter method : String} {present : Bool}, (parameter, method, present) ∈
        [("x5c", "x5c", (signerParameters protectedHeader).x5c.isSome),
          ("trust_chain", "federation", (signerParameters protectedHeader).trustChain.isSome),
          ("kid", "did", (signerParameters protectedHeader).kid.any fun kid =>
            startsWith kid "did:" || (startsWith kid "#" && issuer.any (startsWith · "did:"))),
          ("jwk", "jwk", (signerParameters protectedHeader).jwk.isSome)] → present = true →
          signer.method = method := by
      intro parameter method present hmem hpresent
      have hnot := hnone _ hmem
      by_contra hne
      exact hnot (by simp [hpresent, Ne.symm hne])
    constructor
    · exact fun kid kid' ha hb => of_decide_eq_true (same_of_not_differ hkid ha hb)
    · exact fun x5c x5c' ha hb => of_decide_eq_true (same_of_not_differ hx5c ha hb)
    · exact fun chain chain' ha hb => of_decide_eq_true (same_of_not_differ hchain ha hb)
    · exact fun jwk jwk' ha hb => same_of_not_differ hjwk ha hb
    · exact fun hx => hmethod List.mem_cons_self (Option.isSome_iff_ne_none.mpr hx)
    · exact fun hx => hmethod (.tail _ List.mem_cons_self) (Option.isSome_iff_ne_none.mpr hx)
    · rintro ⟨kid, hkid, hdid⟩
      refine hmethod (.tail _ (.tail _ List.mem_cons_self)) ?_
      rw [hkid, Option.any_some, Bool.or_eq_true, Bool.and_eq_true]
      refine hdid.imp_right fun ⟨hfragment, iss, hiss, hstart⟩ => ⟨hfragment, ?_⟩
      rw [hiss]
      exact hstart
    · exact fun hx => hmethod (.tail _ (.tail _ (.tail _ List.mem_cons_self)))
        (Option.isSome_iff_ne_none.mpr hx)

/-! ## Established signers -/

/-- What identifies a signer in a header. -/
def foundSigners (options : JwsSignerFromHeaderOptions) : List FoundSigner :=
  let alg := (textOf (options.header.get "alg")).getD ""
  x5cSigner options.header alg ++ federationSigner options.header alg ++ didSigner options alg ++
    jwkSigner options.header alg

/-- A signer that is established is one that the header identifies, or is established out of
band. -/
theorem exists_found {options : JwsSignerFromHeaderOptions} {signer : JwsSigner}
    (h : jwsSignerFromHeader options = .ok signer) :
    FoundSigner.valid signer ∈ foundSigners options ∨ ∃ alg kid, signer = .custom alg kid := by
  have hmem : ∀ {found : List FoundSigner} {others : List JwsSigner} {p : FoundSigner → Bool},
      (found.filter p).filterMap FoundSigner.signer? = signer :: others →
      FoundSigner.valid signer ∈ found := by
    intro found others p heq
    have hfirst : signer ∈ (found.filter p).filterMap FoundSigner.signer? := by
      rw [heq]
      exact List.mem_cons_self
    obtain ⟨f, hf, hsigner⟩ := List.mem_filterMap.mp hfirst
    cases f with
    | valid signer' =>
      cases hsigner
      exact (List.mem_filter.mp hf).1
    | invalid => cases hsigner
  unfold jwsSignerFromHeader at h
  dsimp only at h
  split at h
  case h_1 heq =>
    cases h
    exact .inl (hmem heq)
  case h_2 heq =>
    split_ifs at h
    cases h
    exact .inl (hmem heq)
  case h_3 =>
    split_ifs at h
    cases h
    exact .inr ⟨_, _, rfl⟩

/-- The DID signer of a header: its `kid`, or the fragment there resolved against the issuer. -/
theorem didSigner_valid {options : JwsSignerFromHeaderOptions} {alg : String} {signer : JwsSigner}
    (h : FoundSigner.valid signer ∈ didSigner options alg) :
    ∃ kid didUrl, textOf (options.header.get "kid") = some kid ∧ signer = .did didUrl alg none ∧
      (startsWith kid "did:" ∧ didUrl = kid ∨
        startsWith kid "#" ∧ ∃ iss, options.issuer = some iss ∧ startsWith iss "did:" ∧
          didUrl = iss ++ kid) := by
  have hinvalid : ∀ method error,
      FoundSigner.valid signer ∉ [FoundSigner.invalid method error] := by simp
  unfold didSigner at h
  dsimp only at h
  split_ifs at h with hfound _ hresolved hdid
  · exact absurd h (hinvalid _ _)
  · exact absurd h (hinvalid _ _)
  · obtain rfl := FoundSigner.valid.inj (List.mem_singleton.mp h)
    obtain ⟨kid, hkid, hstart⟩ := (Option.any_eq_true _ _).mp hdid
    exact ⟨kid, _, hkid, rfl, .inl ⟨hstart, by rw [hkid]; rfl⟩⟩
  · obtain rfl := FoundSigner.valid.inj (List.mem_singleton.mp h)
    rw [Bool.not_eq_true] at hdid
    rw [hdid, Bool.false_or] at hfound
    obtain ⟨iss, hiss, hdidIssuer⟩ := (Option.any_eq_true _ _).mp hfound
    have hfragment : (textOf (options.header.get "kid")).any (startsWith · "#") = true := by
      rw [hdid] at hresolved
      simpa using hresolved
    obtain ⟨kid, hkid, hstart⟩ := (Option.any_eq_true _ _).mp hfragment
    refine ⟨kid, _, hkid, rfl, .inr ⟨hstart, iss, (Option.filter_eq_some_iff.mp hiss).1,
      hdidIssuer, ?_⟩⟩
    rw [hiss, hkid]
    rfl
  · exact absurd h List.not_mem_nil

/-! ## Keys that are read back -/

theorem isJson_thumbprintComponents {jwk components : Value}
    (h : thumbprintComponents jwk = some components) :
    components.IsJson := by
  have hmembers : ∀ (names : List String) (members : List (String × Value)),
      (names.mapM fun name => (zNonEmptyString (jwk.get name)).map fun value => (name, value)) =
        some members →
        keys members = names ∧ ∀ m ∈ members, m.2.IsJson := by
    intro names
    induction names with
    | nil =>
      intro members h
      cases h
      exact ⟨rfl, fun m hm => absurd hm List.not_mem_nil⟩
    | cons name names ih =>
      intro members h
      obtain ⟨m, rest, hm, hrest, rfl⟩ := mapM_eq_some_cons.mp h
      obtain ⟨value, hvalue, rfl⟩ := Option.map_eq_some_iff.mp hm
      obtain ⟨hkeys, hjson⟩ := ih rest hrest
      refine ⟨by rw [keys_cons, hkeys], List.forall_mem_cons.mpr ⟨?_, hjson⟩⟩
      have hexact := exact_zNonEmptyString _ _ hvalue
      exact hexact.1 ▸ hexact.2
  have hnodup : ∀ entry ∈ thumbprintMembers, entry.2.Nodup := by decide
  obtain ⟨kty, -, h⟩ := Option.bind_eq_some_iff.mp h
  obtain ⟨names, hnames, h⟩ := Option.bind_eq_some_iff.mp h
  obtain ⟨members, hm, h⟩ := Option.bind_eq_some_iff.mp h
  cases h
  obtain ⟨hkeys, hjson⟩ := hmembers names members hm
  exact .obj (by rw [hkeys]; exact hnodup _ (mem_of_lookup hnames)) hjson

section

variable {u jwk jwk' : Value} (hjwk : zJwk u = some jwk) (hdistinct : jwk.Distinct)
    (hnormal : normal jwk = some jwk')

include hjwk hdistinct hnormal

theorem thumbprintComponents_normal : thumbprintComponents jwk' = thumbprintComponents jwk := by
  have hmember : ∀ name ∈ ["crv", "kty", "x", "y", "e", "n", "k"], jwk'.get name =
      jwk.get name := by
    intro name hname
    by_cases hkty : name = "kty"
    · subst hkty
      exact get_normal_of (by decide) (List.mem_cons_self : ("kty", zNonEmptyString) ∈ jwkShape)
        (fun v w h => .inr ((exact_zNonEmptyString v w h).1 ▸ (exact_zNonEmptyString v w h).2)) rfl
          hjwk hdistinct hnormal
    · have hshape : (name, optional zNonEmptyString) ∈ jwkShape := by
        fin_cases hname <;> first | exact absurd rfl hkty | simp [jwkShape]
      refine get_normal (by decide) hshape exact_zNonEmptyString ?_ hjwk hdistinct hnormal
      fin_cases hname <;> rfl
  have hnames : ∀ entry ∈ thumbprintMembers, ∀ name ∈ entry.2,
      name ∈ ["crv", "kty", "x", "y", "e", "n", "k"] := by decide
  have hmembers : ∀ names : List String,
      (∀ name ∈ names, name ∈ ["crv", "kty", "x", "y", "e", "n", "k"]) →
      names.mapM (fun name => (zNonEmptyString (jwk'.get name)).map fun value => (name, value)) =
        names.mapM fun name => (zNonEmptyString (jwk.get name)).map fun value => (name, value) := by
    intro names hall
    induction names with
    | nil => rfl
    | cons name names ih =>
      obtain ⟨hname, hall⟩ := List.forall_mem_cons.mp hall
      rw [List.mapM_cons, List.mapM_cons, hmember name hname, ih hall]
  unfold thumbprintComponents
  rw [hmember "kty" (by decide)]
  refine Option.bind_congr fun kty _ => Option.bind_congr fun names hlookup => ?_
  rw [hmembers names (hnames _ (mem_of_lookup hlookup))]

/-- The members of a key that are there are those that are written in JSON text. -/
theorem get_normal_defined {name : String} (hname : name ∈ definedMembers jwk') :
    name ∈ definedMembers jwk ∧ stringify (jwk'.get name) = stringify (jwk.get name) := by
  obtain ⟨members, known, -, -, rfl⟩ := looseObject_eq_some hjwk
  cases hnormal
  cases hdistinct with
  | obj hn _ =>
    obtain ⟨hkey, hdefined⟩ := List.mem_filter.mp hname
    obtain ⟨x, hx⟩ := Option.isSome_iff_exists.mp (lookup_isSome_iff.mpr hkey)
    have hlookup := hx
    rw [lookup_normalMembers hn, Option.bind_eq_some_iff] at hlookup
    obtain ⟨value, hvalue, hnormal⟩ := hlookup
    rw [definedMembers, List.mem_filter, get_obj_of_some hvalue, get_obj_of_some hx]
    refine ⟨⟨mem_keys_of_mem (mem_of_lookup hvalue), ?_⟩, ?_⟩
    · unfold definedOf
      split
      · cases hnormal
      · rfl
    · rw [stringify_normal value, hnormal]
      rfl

/-- A key that signing takes for the same is read back as the same. -/
theorem sameJwk_of_isSameKey {signerJwk : Value} (hsame : isSameKey jwk signerJwk = true) :
    SameJwk signerJwk jwk' := by
  have hthumbprint := thumbprintComponents_normal hjwk hdistinct hnormal
  unfold isSameKey at hsame
  split at hsame
  case h_1 a b ha hb =>
    rw [decide_eq_true_eq] at hsame
    have hparse := parse_stringify (isJson_thumbprintComponents ha)
    rw [hsame, parse_stringify (isJson_thumbprintComponents hb)] at hparse
    have hcomponents : thumbprintComponents jwk' = thumbprintComponents signerJwk := by
      rw [hthumbprint, ha, hb, Option.some.inj hparse]
    exact ⟨hcomponents, fun hnone => by rw [hthumbprint, ha] at hnone; cases hnone⟩
  case h_2 ha hb =>
    rw [decide_eq_true_eq, List.all_eq_true] at hsame
    refine ⟨by rw [hthumbprint, ha, hb], fun _ name hname => ?_⟩
    obtain ⟨hmem, htext⟩ := get_normal_defined hjwk hdistinct hnormal hname
    rw [htext]
    exact of_decide_eq_true (hsame.2 name hmem)
  case h_3 => cases hsame

end

/-! ## Headers that are read back -/

theorem definedOf_eq_some {v x : Value} (h : definedOf v = some x) : v = x := by
  unfold definedOf at h
  split at h
  · cases h
  · exact Option.some.inj h

section

variable {v w j : Value} (hheader : zJwsProtectedHeader v = some w) (hdistinct : w.Distinct)
    (hnormal : normal w = some j)

include hheader hdistinct hnormal

theorem kid_normal : j.get "kid" = w.get "kid" :=
  get_normal (by decide) (by simp [headerShape]) exact_zNonEmptyString rfl hheader hdistinct hnormal

theorem x5c_normal : j.get "x5c" = w.get "x5c" :=
  get_normal (by decide) (by simp [headerShape, zX5c]) exact_zX5cCertificate.nonEmptyArray rfl
    hheader hdistinct hnormal

theorem trustChain_normal : j.get "trust_chain" = w.get "trust_chain" :=
  get_normal (by decide) (by simp [headerShape]) exact_zNonEmptyString.nonEmptyArray rfl hheader
    hdistinct hnormal

/-- The key of a header is read back as what is left of it. -/
theorem jwk_normal {jwk' : Value} (hjwk : definedOf (j.get "jwk") = some jwk') :
    ∃ u jwk, zJwk u = some jwk ∧ jwk.Distinct ∧ normal jwk = some jwk' ∧
    definedOf (w.get "jwk") = some jwk := by
  have hschema := get_optional (by decide)
    (by simp [headerShape] : ("jwk", optional zPublicJwk) ∈ headerShape) rfl hheader
  obtain ⟨members, known, -, -, rfl⟩ := looseObject_eq_some hheader
  cases hnormal
  cases hdistinct with
  | obj hn hmembers =>
    cases hx : (normalMembers (known ++ _)).lookup "jwk" with
    | none =>
      rw [get_obj_of_none hx] at hjwk
      cases hjwk
    | some x =>
      rw [get_obj_of_some hx] at hjwk
      obtain rfl := definedOf_eq_some hjwk
      rw [lookup_normalMembers hn, Option.bind_eq_some_iff] at hx
      obtain ⟨value, hvalue, hread⟩ := hx
      rw [get_obj_of_some hvalue] at hschema ⊢
      rcases hschema with rfl | ⟨u, hu⟩
      · cases hread
      · refine ⟨u, value, (Option.filter_eq_some_iff.mp hu).1,
          hmembers _ (mem_of_lookup hvalue), hread, ?_⟩
        unfold definedOf
        split
        · cases hread
        · rfl

/-- The signer that is established from a header is the one that the header was made sure to
identify. -/
theorem sameSigner_of_identifiesOnly {signer established : JwsSigner}
    {options : JwsSignerFromHeaderOptions}
    (honly : IdentifiesOnly (signerParameters w) signer options.issuer) (hj : options.header = j)
    (h : jwsSignerFromHeader options = .ok established) :
    SameSigner options.issuer signer established := by
  have hkid : (signerParameters w).kid = textOf (options.header.get "kid") := by
    rw [hj, kid_normal hheader hdistinct hnormal]
    rfl
  rcases exists_found h with hfound | ⟨alg, kid, rfl⟩
  · simp only [foundSigners, List.mem_append] at hfound
    rcases hfound with ((hfound | hfound) | hfound) | hfound
    · unfold x5cSigner at hfound
      split at hfound
      case h_1 x5c hx5c =>
        obtain rfl := FoundSigner.valid.inj (List.mem_singleton.mp hfound)
        rw [hj, x5c_normal hheader hdistinct hnormal] at hx5c
        have hparameter : (signerParameters w).x5c = some (textsOf x5c) :=
          congrArg (Option.map textsOf) hx5c
        have hmethod := honly.methodX5c (by rw [hparameter]; exact Option.some_ne_none _)
        cases signer with
        | x5c x5c' _ _ => exact honly.x5c _ _ hparameter rfl
        | _ => simp [JwsSigner.method] at hmethod
      case h_2 => cases hfound
    · unfold federationSigner at hfound
      split at hfound
      case h_1 => cases hfound
      case h_2 => cases List.mem_singleton.mp hfound
      case h_3 chain kid hchain hk =>
        obtain rfl := FoundSigner.valid.inj (List.mem_singleton.mp hfound)
        rw [hj, trustChain_normal hheader hdistinct hnormal] at hchain
        have hparameter : (signerParameters w).trustChain = some (textsOf chain) :=
          congrArg (Option.map textsOf) hchain
        have hmethod := honly.methodFederation (by rw [hparameter]; exact Option.some_ne_none _)
        cases signer with
        | federation trustChain _ kid' =>
          refine ⟨honly.kid _ _ (hkid.trans hk) rfl, fun chain' hchain' => ?_⟩
          rw [honly.trustChain _ _ hparameter hchain']
        | _ => simp [JwsSigner.method] at hmethod
    · obtain ⟨kid, didUrl, hk, rfl, hdid⟩ := didSigner_valid hfound
      have hmethod := honly.methodDid ⟨kid, hkid.trans hk, by
        refine hdid.imp And.left ?_
        rintro ⟨hfragment, iss, hiss, hstart, -⟩
        exact ⟨hfragment, iss, hiss, hstart⟩⟩
      cases signer with
      | did didUrl' _ _ =>
        obtain rfl := honly.kid _ _ (hkid.trans hk) rfl
        rcases hdid with ⟨-, rfl⟩ | ⟨hfragment, iss, hiss, hstart, rfl⟩
        · exact .inl rfl
        · exact .inr ⟨hfragment, iss, hiss, hstart, rfl⟩
      | _ => simp [JwsSigner.method] at hmethod
    · unfold jwkSigner at hfound
      split at hfound
      case h_1 jwk' hjwk' =>
        obtain rfl := FoundSigner.valid.inj (List.mem_singleton.mp hfound)
        rw [hj] at hjwk'
        obtain ⟨u, jwk, hu, hd, hread, hjwk⟩ := jwk_normal hheader hdistinct hnormal hjwk'
        have hmethod := honly.methodJwk
          (by rw [signerParameters, hjwk]; exact Option.some_ne_none _)
        cases signer with
        | jwk publicJwk _ _ => exact sameJwk_of_isSameKey hu hd hread (honly.jwk _ _ hjwk rfl)
        | _ => simp [JwsSigner.method] at hmethod
      case h_2 => cases hfound
  · cases signer <;> trivial

end

/-- What is signed has a header that does not contradict the signer. -/
theorem identifiesOnly_of_signingInputOf {options : SignCompactJwsOptions}
    {encodedProtectedHeader encodedPayload : String} {input : SigningInput}
    (h : signingInputOf options = .ok (encodedProtectedHeader, encodedPayload, input))
    (hcustom : options.signer.method ≠ "custom") :
    IdentifiesOnly (signerParameters input.protectedHeader) options.signer
      (options.payload.jwtPayload.bind fun payload => textOf (payload.get "iss")) := by
  obtain ⟨protectedHeader, _, h⟩ := bind_eq_ok.mp h
  obtain ⟨_, _, h⟩ := bind_eq_ok.mp h
  obtain ⟨_, _, h⟩ := bind_eq_ok.mp h
  obtain ⟨_, hidentifies, h⟩ := bind_eq_ok.mp h
  obtain ⟨_, _, h⟩ := bind_eq_ok.mp h
  obtain ⟨_, _, h⟩ := bind_eq_ok.mp h
  obtain ⟨_, _, h⟩ := bind_eq_ok.mp h
  cases h
  exact identifiesOnly_of_assert hidentifies hcustom

/-- The header of a JWS that is signed is read from its serialization as what is left of it. -/
theorem header_signed {signJwsCallback : JwsSigner → SigningInput → Except JoseError Signature}
    {options : SignCompactJwsOptions} {result : SignCompactJwsResult}
    (h : signCompactJws signJwsCallback options = .ok result) :
    ∃ encodedProtectedHeader encodedPayload input parts header,
      signingInputOf options = .ok (encodedProtectedHeader, encodedPayload, input) ∧
      zJwsProtectedHeader options.protectedHeader = some input.protectedHeader ∧
      input.protectedHeader.Distinct ∧
      normal input.protectedHeader = some header ∧ compactJwsParts result.compact = .ok parts ∧
      decodeBase64UrlJsonObject parts.encodedProtectedHeader "JWS protected header" =
        .ok header := by
  obtain ⟨encodedProtectedHeader, encodedPayload, input, signature, hinput, -, hsignature, rfl⟩ :=
    signCompactJws_eq_ok h
  obtain ⟨isBase64UrlEncoded, hs⟩ := isSigned_of_signingInputOf hinput
  obtain ⟨headerMembers, j, hobj, hdistinct, hnormal, hreads⟩ := hs.headerReads
  have hurl : isBase64Url encodedProtectedHeader = true := by
    rw [hs.encodesHeader]
    exact isBase64Url_encode _
  obtain ⟨compact, hparts⟩ := compactJwsParts_join hurl hs.part.1 hsignature
  refine ⟨_, _, input, _, j, hinput, hs.header, hobj ▸ hdistinct, hobj ▸ hnormal, hparts, ?_⟩
  rw [hs.encodesHeader, hobj]
  exact hreads.decodes

/-- The signer that is established from the header of a JWS that is signed is the signer that
signed. -/
theorem signerFromHeader_signed
    {signJwsCallback : JwsSigner → SigningInput → Except JoseError Signature}
    {options : SignCompactJwsOptions} {result : SignCompactJwsResult}
    {members : List (String × Value)} (h : signCompactJws signJwsCallback options = .ok result)
    (hpayload : options.payload = .json members) (hcustom : options.signer.method ≠ "custom") :
    ∃ parts header, compactJwsParts result.compact = .ok parts ∧
      decodeBase64UrlJsonObject parts.encodedProtectedHeader "JWS protected header" = .ok header ∧
      ∀ fromHeader : JwsSignerFromHeaderOptions, fromHeader.header = header →
        fromHeader.issuer = textOf ((obj members).get "iss") → ∀ established,
          jwsSignerFromHeader fromHeader = .ok established →
          SameSigner fromHeader.issuer options.signer established := by
  obtain ⟨_, _, input, parts, header, hinput, hheader, hdistinct, hnormal, hparts, hdecodes⟩ :=
    header_signed h
  refine ⟨parts, header, hparts, hdecodes,
    fun fromHeader hfrom hissuer established hestablished => ?_⟩
  have honly := identifiesOnly_of_signingInputOf hinput hcustom
  rw [hpayload, Payload.jwtPayload, Option.bind_some, ← hissuer] at honly
  exact sameSigner_of_identifiesOnly hheader hdistinct hnormal honly hfrom hestablished

/-! ## Runs -/

/-- A payload that a DID issued, with the `kid` of its DID signer. -/
def didOptions (didUrl : String) : SignCompactJwsOptions where
  protectedHeader := obj [("alg", str "ES256"), ("kid", str didUrl)]
  distinct := by
    have hkeys : ["alg", "kid"].Nodup := by decide
    refine .obj hkeys fun m hm => ?_
    fin_cases hm <;> exact .leaf _
  payload := .json [("iss", str "did:web:example.com")]
  signer := .did didUrl "ES256" none

theorem signerFromHeader_signed_did : ∃ result parts header,
    signCompactJws constantSignature (didOptions "did:web:example.com#key-1") = .ok result ∧
    compactJwsParts result.compact = .ok parts ∧
    decodeBase64UrlJsonObject parts.encodedProtectedHeader "JWS protected header" = .ok header ∧
    ∀ fromHeader : JwsSignerFromHeaderOptions, fromHeader.header = header →
      fromHeader.issuer = some "did:web:example.com" →
      ∀ established, jwsSignerFromHeader fromHeader = .ok established →
        SameSigner fromHeader.issuer
          (.did "did:web:example.com#key-1" "ES256" none) established := by
  obtain ⟨result, h⟩ := exists_of_isSome (show (signCompactJws constantSignature
    (didOptions "did:web:example.com#key-1")).toOption.isSome = true by decide +kernel)
  obtain ⟨parts, header, hparts, hdecodes, hsame⟩ := signerFromHeader_signed h rfl (by decide)
  exact ⟨result, parts, header, h, hparts, hdecodes, hsame⟩

/-- A signer with a DID URL that is only a fragment: the one that is established has it resolved
against the issuer. -/
theorem relativeDidUrl_resolved : ∃ result parts header,
    signCompactJws constantSignature (didOptions "#key-1") = .ok result ∧
    compactJwsParts result.compact = .ok parts ∧
    decodeBase64UrlJsonObject parts.encodedProtectedHeader "JWS protected header" = .ok header ∧
    jwsSignerFromHeader { header, issuer := some "did:web:example.com" } =
      .ok (.did "did:web:example.com#key-1" "ES256" none) := by
  obtain ⟨result, h⟩ := exists_of_isSome (show (signCompactJws constantSignature
    (didOptions "#key-1")).toOption.isSome = true by decide +kernel)
  obtain ⟨_, _, input, parts, header, _, hheader, _, hnormal, hparts, hdecodes⟩ := header_signed h
  refine ⟨result, parts, header, h, hparts, hdecodes, ?_⟩
  have hinput : zJwsProtectedHeader (didOptions "#key-1").protectedHeader =
      some (didOptions "#key-1").protectedHeader := by
    rfl
  rw [← Option.some.inj (hinput.symm.trans hheader)] at hnormal
  cases hnormal
  rfl

end IdentityCommon.Jose
