import IdentityCommon.SdJwt.PackTree
import IdentityCommon.SdJwt.SafeVerify
import IdentityCommon.Ecma.JsonNormal

/-!
# Issuing

What an issuer makes of claims is decoded and processed to the claims again.

## Main definitions

- `DecodesTo` — what an encoded disclosure is decoded to

## Main results

- `issue_getClaims` — the claims of an SD-JWT that is issued
-/

namespace IdentityCommon.SdJwt

open Ecma Value AssocList Common IdentityCommon.Except

/-! ## Encoded disclosures -/

/-- The disclosure is decoded from the encoded form of another one, with the same contents and
digest. -/
structure DecodesTo (hash : HasherAndAlg) (d d' : Disclosure) : Prop where
  fromEncode : Disclosure.fromEncode d.encode hash = .ok d'
  key : d'.key = d.key
  value : d'.value = d.value
  digest : d'.digest hash = d.digest hash

/-- The hasher makes hashes of at least 16 bytes. -/
def LongHashes (hasher : Hasher) : Prop := ∀ data alg, 16 ≤ (hasher data alg).length

theorem isDigest_digest {hash : HasherAndAlg} (hh : LongHashes hash.hasher) (data : String) :
    IsDigest (hash.digest data) :=
  ⟨_, hh data hash.alg, rfl⟩

theorem IsDigest.ne_empty {digest : String} (h : IsDigest digest) : digest ≠ "" := by
  rintro rfl
  exact absurd h.length_le (by decide)

theorem Fresh.encode_eq {d : Disclosure} (h : Fresh d) : d.encode = encodeValue d.decode := by
  rw [Disclosure.encode, h._encoded]
  rfl

theorem Fresh.digest_eq {d : Disclosure} (h : Fresh d) (hash : HasherAndAlg) :
    d.digest hash = hash.digest d.encode := by
  rw [Disclosure.digest, h._digest]
  rfl

theorem Fresh.decode_eq {d : Disclosure} (h : Fresh d) : d.decode = .arr (match d.key with
    | some key => [.str d.salt, .str key, d.value]
    | none => [.str d.salt, d.value]) := by
  rw [Disclosure.decode]
  cases hkey : d.key with
  | none => rfl
  | some key =>
    have hne : key ≠ "" := fun heq => h.key_ne (heq ▸ hkey)
    rw [Option.filter_some_pos (by simpa using hne)]

theorem Fresh.isJson_decode {d : Disclosure} (h : Fresh d) : d.decode.IsJson := by
  rw [h.decode_eq]
  have hvalue := List.forall_mem_singleton.mpr h.isJson
  cases d.key with
  | none => exact .arr (List.forall_mem_cons.mpr ⟨.leaf rfl, hvalue⟩)
  | some key =>
    exact .arr (List.forall_mem_cons.mpr ⟨.leaf rfl, List.forall_mem_cons.mpr ⟨.leaf rfl, hvalue⟩⟩)

/-- A disclosure that an issuer makes is decoded. -/
theorem Fresh.exists_decodesTo {d : Disclosure} (h : Fresh d) {hash : HasherAndAlg}
    (hh : LongHashes hash.hasher) :
    ∃ d', DecodesTo hash d d' := by
  have hdecode : base64urlDecodeJson d.encode = .ok d.decode := by
    rw [h.encode_eq]
    exact base64urlDecodeJson_encodeValue h.isJson_decode
  have hdigest : (some (hash.digest d.encode)).filter (· ≠ "") = some (hash.digest d.encode) :=
    nonEmpty_eq_some.mpr ⟨rfl, (isDigest_digest hh _).ne_empty⟩
  suffices hfrom : ∃ d', Disclosure.fromArray d.decode (some (hash.digest d.encode))
      (some d.encode) = .ok d' ∧
      d'.key = d.key ∧ d'.value = d.value by
    obtain ⟨d', hd', hkey, hvalue⟩ := hfrom
    refine ⟨d', ?_, hkey, hvalue, ?_⟩
    · rw [Disclosure.fromEncode, hdecode]
      exact hd'
    · rw [Disclosure.digest, (fromArray_meta hd').1, hdigest, h.digest_eq, Option.getD_some]
  rw [h.decode_eq]
  cases hkey : d.key with
  | none => exact ⟨_, rfl, rfl, rfl⟩
  | some key =>
    obtain ⟨hd, hl⟩ := d.key_not_reserved key hkey
    simp only [Disclosure.fromArray]
    rw [dif_neg (not_or.mpr ⟨hd, hl⟩)]
    exact ⟨_, rfl, rfl, rfl⟩

/-! ## Processing what was packed -/

variable {c : PackConfig} {claims packed : Value} {ds ds' : List Disclosure}
    {decoys : List String} {t : Tree}

theorem map_digest_of_decodesTo {hash : HasherAndAlg} (h : List.Forall₂ (DecodesTo hash) ds ds') :
    keys (hashMap hash ds') = ds.map (·.digest hash) := by
  induction h with
  | nil => rfl
  | cons hd _ ih => exact congrArg₂ List.cons hd.digest ih

/-- The decoded disclosures are found by their digests. -/
theorem gives_hashMap (h : List.Forall₂ (DecodesTo c.hash) ds ds')
    (hn : (ds.map (·.digest c.hash) ++ decoys).Nodup)
    (hdecoys : ∀ decoy ∈ decoys, decoy ∉ inheritedNames) :
    Gives c (hashMap c.hash ds') ds decoys := by
  have hkeys := map_digest_of_decodesTo h
  refine ⟨fun d hd => ?_, fun decoy hdecoy => ?_⟩
  · obtain ⟨d', hd', hdec⟩ := exists_of_forall₂ h hd
    have hmem : (d.digest c.hash, d') ∈ hashMap c.hash ds' :=
      mem_hashMap.mpr ⟨hd', hdec.digest.symm⟩
    have hn' : (keys (hashMap c.hash ds')).Nodup := hkeys ▸ hn.of_append_left
    rw [disclosed, lookup_of_mem hn' hmem]
    exact congrArg some (Prod.ext hdec.key hdec.value)
  · have hnot : decoy ∉ keys (hashMap c.hash ds') := fun hmem =>
      List.disjoint_of_nodup_append hn (hkeys ▸ hmem) hdecoy
    rw [disclosed, lookup_eq_none_iff.mpr hnot]
    exact if_neg (hdecoys decoy hdecoy)

/-- Processing what packing has made follows its tree. -/
theorem Packed.explains (h : Packed c claims packed ds decoys t) {st' : PackState}
    (hsaw : Saw c {} ds decoys st') (hdecoys : ∀ decoy ∈ decoys, decoy ∉ inheritedNames)
    (hds : List.Forall₂ (DecodesTo c.hash) ds ds') :
    ∃ r, Explains (hashMap c.hash ds') packed r t ∧ r.unpackedObj.Same claims := by
  have hn : (ds.map (·.digest c.hash) ++ decoys).Nodup := by
    have hperm : st'.seenDigests.Perm (ds.map (·.digest c.hash) ++ decoys) := hsaw.perm
    exact hperm.nodup_iff.mp (hsaw.nodup List.nodup_nil)
  obtain ⟨v, hclaims, hsame⟩ := h.same
  refine ⟨⟨v, assign [] (t.log "")⟩,
    ⟨h.isValue, h.payload_eq, h.fits _ _ (gives_hashMap hds hn hdecoys),
      h.digests.nodup_iff.mpr hn, ?_, hclaims, rfl⟩, hsame⟩
  rw [map_digest_of_decodesTo hds]
  exact fun digest hdigest => h.digests.mem_iff.mpr (List.mem_append_left _ hdigest)

theorem distinctValues_decoded {hash : HasherAndAlg} (hf : ∀ d ∈ ds, Fresh d)
    (hds : List.Forall₂ (DecodesTo hash) ds ds') : ∀ m ∈ hashMap hash ds', m.2.value.IsJson := by
  intro m hm
  obtain ⟨hd', -⟩ := mem_hashMap.mp hm
  obtain ⟨d, hd, hdec⟩ := exists_of_forall₂ hds.flip hd'
  rw [hdec.value]
  exact (hf d hd).isJson

theorem Saw.not_inherited {st st' : PackState} (h : Saw c st ds decoys st')
    (hh : LongHashes c.hash.hasher) :
    ∀ decoy ∈ decoys, decoy ∉ inheritedNames := by
  intro decoy hdecoy
  obtain ⟨salt, rfl⟩ := h.decoys decoy hdecoy
  exact (isDigest_digest hh salt).not_inherited

theorem exists_decodesTo {hash : HasherAndAlg} (hh : LongHashes hash.hasher)
    (hf : ∀ d ∈ ds, Fresh d) :
    ∃ ds', List.Forall₂ (DecodesTo hash) ds ds' := by
  induction ds with
  | nil => exact ⟨[], .nil⟩
  | cons d ds ih =>
    obtain ⟨hd, hds⟩ := List.forall_mem_cons.mp hf
    obtain ⟨d', hd'⟩ := hd.exists_decodesTo hh
    obtain ⟨ds', hds'⟩ := ih hds
    exact ⟨d' :: ds', .cons hd' hds'⟩

/-- What the members of an object are packed to are the members of an object, none of them named
`_sd_alg`. -/
theorem Packed.exists_members {members : List (String × Value)}
    (h : Packed c (.obj members) packed ds decoys t) {map : DisclosureMap}
    (hg : Gives c map ds decoys) :
    ∃ packedMembers, packed = .obj packedMembers ∧ "_sd_alg" ∉ keys packedMembers := by
  obtain ⟨v, hclaims, hsame⟩ := h.same
  have hhead : v.head = .obj [] := Option.some.inj (hsame [])
  have hv := h.isValue
  have hp := h.payload_eq
  -- the tree fits at every path, and `_sd_alg` is not allowed below the top
  have hfit := h.fits map "_" hg
  cases t with
  | obj kept sd =>
    refine ⟨_, hp.symm, fun hmem => ?_⟩
    rw [Tree.keys_payloadMembers] at hmem
    obtain ⟨m, hm, hkey⟩ := List.mem_map.mp hmem
    obtain ⟨hmember, -⟩ := Tree.forall_fitMembers hfit.1 m hm
    rcases Tree.memberFits_cases hmember with ⟨-, heq⟩ | ⟨w, -, heq⟩ | ⟨-, -, -, hne⟩
    · exact absurd (heq.symm.trans hkey) (by decide)
    · exact absurd (heq.symm.trans hkey) (by decide)
    · exact hne (by decide) hkey
  | leaf l =>
    cases hclaims
    cases hhead
  | arr items =>
    cases hclaims
    cases hhead
  | raw w => cases hv
  | digestList => cases hv
  | hidden digest => cases hv
  | disclosed digest content => cases hv

/-! ## The JWT of the issuer -/

theorem encodeValue_normal {v j : Value} (h : Json.normal v = some j) :
    encodeValue v = encodeValue j := by
  rw [encodeValue, encodeValue, Json.stringify_normal, h, Option.bind_some]

theorem compactJwt_normal {header header' payload payload' : Value}
    (hheader : Json.normal header = some header') (hpayload : Json.normal payload = some payload')
    (signature : String) :
    compactJwt header payload signature = compactJwt header' payload' signature := by
  rw [compactJwt, compactJwt, encodeValue_normal hheader, encodeValue_normal hpayload]

theorem distinct_issuerHeader (config : IssuerConfig) (alg : String)
    {header : List (String × Value)} (h : ∀ m ∈ header, m.2.Distinct) :
    (SdJwtInstance.issuerHeader config alg header).Distinct := by
  have hfold : ∀ typ : List (String × Value), (Value.obj typ).Distinct →
      (Value.obj (header.foldl (fun acc m => insert m.1 m.2 acc) typ)).Distinct := by
    induction header with
    | nil => exact fun _ htyp => htyp
    | cons m header ih =>
      obtain ⟨hm, hheader⟩ := List.forall_mem_cons.mp h
      exact fun typ htyp => ih hheader _ (distinct_insert htyp hm)
  rw [SdJwtInstance.issuerHeader]
  refine distinct_insert (hfold _ ?_) (.leaf _)
  split
  · exact .obj List.nodup_nil nofun
  · refine .obj (List.nodup_singleton _) (List.forall_mem_singleton.mpr ?_)
    cases config.type with
    | none => exact .leaf _
    | some typ => exact .leaf _

/-- What the payload of the JWT is read back as, and what a verifier takes from it. -/
theorem normal_payload {packedMembers : List (String × Value)}
    (hj : (Value.obj packedMembers).IsJson) (hkey : "_sd_alg" ∉ keys packedMembers)
    (frame : DisclosureFrame) {hashAlg : String}
    (hiana : hashAlg ∈ DEFAULT_SECURE_HASH_ALGORITHMS) :
    ∃ members' alg, Json.normal
      (.obj (insert "_sd_alg" (SdJwtInstance.sdAlgOf frame hashAlg) packedMembers)) =
        some (.obj members') ∧
      getSdAlgAndPayload members' = .ok (alg, packedMembers) ∧
      (frame ≠ .undefined → alg = hashAlg) := by
  have hnormal : Json.normalMembers packedMembers = packedMembers := by
    have h := Json.normal_of_isJson hj
    rw [Json.normal] at h
    injection h with h
    injection h
  have hfilter : packedMembers.filter (·.1 ≠ "_sd_alg") = packedMembers :=
    List.filter_eq_self.mpr fun m hm => by
      have hne : m.1 ≠ "_sd_alg" := fun heq => hkey (heq ▸ mem_keys_of_mem hm)
      simpa using hne
  have hnone := lookup_eq_none_iff.mpr hkey
  rw [insert_of_not_mem hkey, Json.normal, Json.normalMembers_append, hnormal]
  cases frame with
  | undefined =>
    refine ⟨packedMembers, "sha-256", ?_, ?_, fun h => absurd rfl h⟩
    · rw [Json.normalMembers_cons_of_none rfl, Json.normalMembers, List.append_nil]
    · rw [getSdAlgAndPayload, hnone, hfilter]
  | frame _sd _sd_decoy frames =>
    refine ⟨packedMembers ++ [("_sd_alg", .str hashAlg)], hashAlg, ?_, ?_, fun _ => rfl⟩
    · rw [Json.normalMembers_cons_of_some rfl]
      rfl
    · have hlookup : (packedMembers ++ [("_sd_alg", Value.str hashAlg)]).lookup "_sd_alg" =
          some (.str hashAlg) := by
        rw [List.lookup_append, hnone]
        rfl
      have hall : ∀ alg ∈ DEFAULT_SECURE_HASH_ALGORITHMS, alg ∈ IANA_HASH_ALGORITHMS := by decide
      rw [getSdAlgAndPayload, hlookup, List.filter_append, hfilter]
      dsimp only
      rw [if_neg (not_not.mpr (hall _ hiana)), if_neg (not_not.mpr hiana)]
      simp

/-! ## The SD-JWT -/

/-- What an issuer that returns a text has made. -/
structure Issued (config : IssuerConfig) (hasher : Hasher) (payload : Value)
    (frame : DisclosureFrame) (header : List (String × Value)) (s : String) where
  saltGenerator : ℕ → String
  signer : Signer
  signer_eq : config.signer = some signer
  hashAlg : String
  allowed : hashAlg ∈ config.allowedDisclosureHashAlgorithms.getD DEFAULT_SECURE_HASH_ALGORITHMS
  alg : String
  unreserved : Unreserved payload
  packed : Value
  disclosures : List Disclosure
  st : PackState
  pack_eq : pack ⟨⟨hasher, hashAlg⟩, saltGenerator⟩ payload frame {} =
    .ok ((packed, disclosures), st)
  data : String
  signature : String
  signature_eq : signer data = .ok signature
  text_eq : s = join (compactJwt (SdJwtInstance.issuerHeader config alg header)
    (.obj (insert "_sd_alg" (SdJwtInstance.sdAlgOf frame hashAlg) (ownMembers packed))) signature ::
      (disclosures.map Disclosure.encode ++ [""])) SD_SEPARATOR

theorem issue_eq_ok {config : IssuerConfig} {hasher : Hasher}
    (hhasher : config.hasher = some hasher) {payload : Value} {frame : DisclosureFrame}
    {header : List (String × Value)} {s : String}
    (h : SdJwtInstance.issue config payload frame header = .ok s) :
    Nonempty (Issued config hasher payload frame header s) := by
  rw [SdJwtInstance.issue] at h
  split at h
  case h_1 => cases h
  case h_2 => cases h
  case h_3 => cases h
  case h_4 hasher' saltGenerator alg heq _ _ =>
    cases hhasher.symm.trans heq
    split at h
    case isTrue => cases h
    case isFalse =>
      obtain ⟨⟨⟩, hreserved, h⟩ := bind_eq_ok.mp h
      dsimp only at h
      split at h
      case isTrue => cases h
      case isFalse hallowed =>
        obtain ⟨⟨⟨packed, disclosures⟩, st⟩, hpack, h⟩ := bind_eq_ok.mp h
        dsimp only at h
        split at h
        case h_1 => cases h
        case h_2 signer hsigner =>
          obtain ⟨signed, hsign, hencode⟩ := bind_eq_ok.mp h
          obtain ⟨header', payload', data, signature, hheader', hpayload', hsignature, hcompact⟩ :=
            sign_eq_ok rfl hsign
          cases hheader'
          cases hpayload'
          rw [encodeSdJwt_eq rfl hcompact rfl (.inl ⟨rfl, rfl⟩)] at hencode
          exact ⟨{
            saltGenerator, signer, signer_eq := hsigner, hashAlg := _,
            allowed := not_not.mp hallowed, alg
            unreserved := SdJwtInstance.validateReservedFieldsInternal_eq_ok.mp hreserved
            packed, disclosures, st, pack_eq := hpack, data, signature, signature_eq := hsignature
            text_eq := (Except.ok.inj hencode).symm }⟩

/-- A signer whose signatures have none of the separators. -/
def PlainSignatures (signer : Signer) : Prop :=
  ∀ data signature, signer data = .ok signature → '.' ∉ signature.toList ∧
  SD_SEPARATOR ∉ signature.toList

/-- What is decoded from the text that an issuer returns. -/
structure Delivered (hasher : Hasher) (members : List (String × Value)) (s : String) (x : SdJwt)
    (t : Tree) where
  decoded : SdJwt.fromEncode s hasher = .ok x
  jwtMembers : List (String × Value)
  disclosures : List Disclosure
  parts_eq : x.parts = .ok (.obj jwtMembers, disclosures)
  alg : String
  packedMembers : List (String × Value)
  alg_eq : getSdAlgAndPayload jwtMembers = .ok (alg, packedMembers)
  isJson : (Value.obj packedMembers).IsJson
  valuesJson : ∀ m ∈ hashMap ⟨hasher, alg⟩ disclosures, m.2.value.IsJson
  nodup : (keys (hashMap ⟨hasher, alg⟩ disclosures)).Nodup
  isDigest : ∀ digest ∈ t.digests, IsDigest digest
  r : Unpacked
  explains : Explains (hashMap ⟨hasher, alg⟩ disclosures) (.obj packedMembers) r t
  same : r.unpackedObj.Same (.obj members)
  kbJwt : x.kbJwt = none

variable {config : IssuerConfig} {hasher : Hasher} {members header : List (String × Value)}
    {frame : DisclosureFrame}
  {s : String}

/-- Without a frame there are no disclosures. -/
theorem pack_undefined {claims : Value} {st : PackState} {r : (Value × List Disclosure) × PackState}
    (h : pack c claims .undefined st = .ok r) : r.1.2 = [] := by
  cases h
  rfl

/-- What an issuer returns is decoded to a tree that reveals the claims. -/
theorem exists_delivered (hhasher : config.hasher = some hasher) (hh : LongHashes hasher)
    (hallowed : config.allowedDisclosureHashAlgorithms = none)
    (hsigner : ∀ signer, config.signer = some signer → PlainSignatures signer)
    (hj : (Value.obj members).IsJson) (hs : Suits (.obj members) frame)
    (hheader : ∀ m ∈ header, m.2.Distinct)
    (h : SdJwtInstance.issue config (.obj members) frame header = .ok s) :
    ∃ x t, Nonempty (Delivered hasher members s x t) := by
  obtain ⟨o⟩ := issue_eq_ok hhasher h
  have hiana : o.hashAlg ∈ DEFAULT_SECURE_HASH_ALGORITHMS := by
    have hmem := o.allowed
    rwa [hallowed] at hmem
  obtain ⟨⟨decoys, t, ht, hsaw⟩, -⟩ := pack_suits frame _ _ _ hj o.unreserved hs o.pack_eq
  dsimp only at ht hsaw
  have hdecoys := hsaw.not_inherited hh
  -- the payload of the JWT is read back as the packed claims with the algorithm
  obtain ⟨ds₀, hds₀⟩ : ∃ ds₀, List.Forall₂ (DecodesTo ⟨hasher, o.hashAlg⟩) o.disclosures ds₀ :=
    exists_decodesTo hh ht.fresh
  have hn : (o.disclosures.map (·.digest ⟨hasher, o.hashAlg⟩) ++ decoys).Nodup := by
    have hperm : o.st.seenDigests.Perm
        (o.disclosures.map (·.digest ⟨hasher, o.hashAlg⟩) ++ decoys) := hsaw.perm
    exact hperm.nodup_iff.mp (hsaw.nodup List.nodup_nil)
  obtain ⟨packedMembers, hpacked, halgKey⟩ := ht.exists_members (gives_hashMap hds₀ hn hdecoys)
  rw [hpacked] at ht
  obtain ⟨members', alg, hnormal, halg, halgEq⟩ := normal_payload ht.isJson halgKey frame hiana
  obtain ⟨header', hheader'⟩ :
      ∃ header', Json.normal (SdJwtInstance.issuerHeader config o.alg header) = some header' :=
    ⟨_, rfl⟩
  have hheaderJson := Json.isJson_normal (distinct_issuerHeader config o.alg hheader) hheader'
  have hpayloadJson : (Value.obj members').IsJson := by
    refine Json.isJson_normal (distinct_insert ht.isJson.distinct ?_) hnormal
    cases frame <;> exact .leaf _
  -- the disclosures are decoded with the algorithm of the payload, which is that of the issuer if
  -- there are any
  have hfrom : List.Forall₂ (fun encoded d => Disclosure.fromEncode encoded ⟨hasher, alg⟩ = .ok d)
      (o.disclosures.map Disclosure.encode) ds₀ ∧
      hashMap ⟨hasher, alg⟩ ds₀ = hashMap ⟨hasher, o.hashAlg⟩ ds₀ := by
    by_cases hframe : frame = .undefined
    · subst hframe
      have hnil : o.disclosures = [] := pack_undefined o.pack_eq
      rw [hnil] at hds₀ ⊢
      cases hds₀
      exact ⟨.nil, rfl⟩
    · rw [halgEq hframe]
      exact ⟨List.forall₂_map_left_iff.mpr (hds₀.imp fun _ _ hd => hd.fromEncode), rfl⟩
  obtain ⟨hfrom, hmap⟩ := hfrom
  obtain ⟨r, hr, hsame⟩ := ht.explains hsaw hdecoys hds₀
  have hvalues : ∀ m ∈ hashMap ⟨hasher, o.hashAlg⟩ ds₀, m.2.value.IsJson :=
    distinctValues_decoded ht.fresh hds₀
  obtain ⟨hdot, hseparator⟩ := hsigner o.signer o.signer_eq o.data o.signature o.signature_eq
  have htext : s = join (compactJwt header' (.obj members') o.signature ::
      (o.disclosures.map Disclosure.encode ++ [""]))
      SD_SEPARATOR := by
    refine o.text_eq.trans ?_
    rw [hpacked]
    exact congrArg (fun text => join
      (text :: (o.disclosures.map Disclosure.encode ++ [""])) SD_SEPARATOR)
      (compactJwt_normal hheader' hnormal o.signature)
  have hx : SdJwt.fromEncode s hasher =
      .ok { jwt := some (Jwt.decoded header' (.obj members') o.signature), disclosures := some ds₀,
            kbJwt := none } := by
    refine (congrArg (SdJwt.fromEncode · hasher) htext).trans ?_
    refine fromEncode_join ?_ (Jwt.fromEncode_compactJwt hheaderJson hpayloadJson hdot)
      rfl halg hfrom rfl
    refine List.forall_mem_cons.mpr ⟨separator_not_mem_compactJwt _ _ hseparator,
      List.forall_mem_append.mpr ⟨?_, ?_⟩⟩
    · intro part hpart
      obtain ⟨d, hd, rfl⟩ := List.mem_map.mp hpart
      rw [(ht.fresh d hd).encode_eq]
      exact not_mem_encodeValue (by decide) _
    · exact List.forall_mem_singleton.mpr (by decide)
  refine ⟨_, t, ⟨{
    decoded := hx, jwtMembers := members', disclosures := ds₀, parts_eq := rfl, alg,
      packedMembers, alg_eq := halg
    isJson := ht.isJson, valuesJson := hmap ▸ hvalues, nodup := ?_,
    isDigest := fun digest hmem => ?_
    r, explains := hmap ▸ hr, same := hsame, kbJwt := rfl }⟩⟩
  · rw [hmap, map_digest_of_decodesTo hds₀]
    exact hn.of_append_left
  · rcases List.mem_append.mp (ht.digests.mem_iff.mp hmem) with hmem | hmem
    · obtain ⟨d, hd, rfl⟩ := List.mem_map.mp hmem
      dsimp only
      rw [(ht.fresh d hd).digest_eq]
      exact isDigest_digest hh _
    · obtain ⟨salt, rfl⟩ := hsaw.decoys digest hmem
      exact isDigest_digest hh salt

theorem Delivered.unpack {x : SdJwt} {t : Tree} (o : Delivered hasher members s x t) :
    SdJwt.unpack o.jwtMembers o.disclosures hasher = .ok o.r := by
  refine unpack_eq_ok.mpr ⟨o.alg, o.packedMembers, o.alg_eq, o.nodup, fun digest hdigest => ?_, ?_⟩
  · exact (o.isDigest digest (o.explains.used hdigest)).not_inherited
  · exact (exists_explains (fun m hm => (o.valuesJson m hm).distinct) o.isJson.distinct).mpr
      ⟨t, o.explains⟩

/-- Every digest that processing comes to is a digest. -/
theorem Delivered.hashedThroughout {x : SdJwt} {t : Tree} (o : Delivered hasher members s x t) :
    HashedThroughout (hashMap ⟨hasher, o.alg⟩ o.disclosures) (.obj o.packedMembers) := by
  intro hash hreached
  have hcount := o.explains.count_found o.isJson
    (fun m hm => (o.valuesJson m hm).distinct) o.nodup hash
  refine o.isDigest hash (List.count_pos_iff.mp ?_)
  cases hreached with
  | payload hmem =>
    have hpos := List.count_pos_iff.mpr hmem
    omega
  | @disclosure digest _ d _ hlookup hmem =>
    have hin : hash ∈ (hashMap ⟨hasher, o.alg⟩ o.disclosures).flatMap (foundDigests ·.2.value) :=
      List.mem_flatMap.mpr ⟨(digest, d), mem_of_lookup hlookup, hmem⟩
    have hpos := List.count_pos_iff.mpr hin
    omega

/-- An SD-JWT that is issued with a frame that is shaped after the claims is decoded, and reveals
the claims. -/
theorem issue_getClaims (hhasher : config.hasher = some hasher) (hh : LongHashes hasher)
    (hallowed : config.allowedDisclosureHashAlgorithms = none)
    (hsigner : ∀ signer, config.signer = some signer → PlainSignatures signer)
    (hj : (Value.obj members).IsJson) (hs : Suits (.obj members) frame)
    (hheader : ∀ m ∈ header, m.2.Distinct)
    (h : SdJwtInstance.issue config (.obj members) frame header = .ok s) :
    ∃ x claims, SdJwt.fromEncode s hasher = .ok x ∧ x.getClaims hasher = .ok claims ∧
    claims.Same (.obj members) := by
  obtain ⟨x, t, ⟨o⟩⟩ := exists_delivered hhasher hh hallowed hsigner hj hs hheader h
  refine ⟨x, o.r.unpackedObj, o.decoded, ?_, o.same⟩
  rw [SdJwt.getClaims, SdJwt.unpackParts, o.parts_eq, ok_bind]
  dsimp only [ownMembers]
  rw [o.unpack]
  rfl

/-! ## What a holder presents of it -/

/-- Some of the disclosures of a decoded SD-JWT are encoded to an SD-JWT that is decoded to
these. -/
theorem DecodedFrom.fromEncode_some {x : SdJwt} (d : DecodedFrom s hasher x) (hkb : x.kbJwt = none)
    {chosen : List Disclosure} (hsub : chosen ⊆ d.disclosures) :
    ∃ out, { x with disclosures := chosen : SdJwt }.encodeSdJwt = .ok out ∧
      SdJwt.fromEncode out hasher = .ok { x with disclosures := chosen } := by
  have henc := encodeSdJwt_eq (x := { x with disclosures := chosen }) d.jwt_eq
    (fromEncode_encoded d.jwt_of) rfl (.inl ⟨rfl, hkb⟩)
  refine ⟨_, henc, ?_⟩
  have hchosen : ∀ e ∈ chosen, ∃ encoded ∈ d.encodedDisclosures, Disclosure.fromEncode encoded
      ⟨hasher, d.alg⟩ = .ok e :=
    fun e he => exists_of_forall₂ d.disclosures_of.flip (hsub he)
  have hparts : ∀ part ∈ split s SD_SEPARATOR, SD_SEPARATOR ∉ part.toList :=
    fun part hpart => not_mem_of_mem_split hpart
  rw [d.split_eq] at hparts
  obtain ⟨hjwt, hds⟩ := List.forall_mem_cons.mp hparts
  have hx : { x with disclosures := some chosen } = SdJwt.mk (some d.jwt) (some chosen) none := by
    rw [← d.jwt_eq, ← hkb]
  rw [hx]
  refine fromEncode_join (List.forall_mem_cons.mpr ⟨hjwt, List.forall_mem_append.mpr ⟨?_, ?_⟩⟩)
    d.jwt_of d.payload_eq d.alg_eq
    (List.forall₂_map_left_iff.mpr (List.forall₂_same.mpr fun e he => ?_)) rfl
  · intro part hpart
    obtain ⟨e, he, rfl⟩ := List.mem_map.mp hpart
    obtain ⟨encoded, hmem, hfrom⟩ := hchosen e he
    rw [encode_of_fromEncode hfrom]
    exact hds _ (List.mem_append_left _ hmem)
  · exact List.forall_mem_singleton.mpr (by decide)
  · obtain ⟨encoded, -, hfrom⟩ := hchosen e he
    rw [encode_of_fromEncode hfrom]
    exact hfrom

theorem mapM_id_map_some {α : Type} (l : List α) : (l.map some).mapM id = some l := by
  induction l with
  | nil => rfl
  | cons a l ih =>
    rw [List.map_cons, List.mapM_cons, ih]
    rfl

/-- A holder presents what is issued with any presentation frame, and the verifier reads some of the
members and elements of the claims. -/
theorem issue_present (hhasher : config.hasher = some hasher) (hh : LongHashes hasher)
    (hallowed : config.allowedDisclosureHashAlgorithms = none)
    (hsigner : ∀ signer, config.signer = some signer → PlainSignatures signer)
    (hj : (Value.obj members).IsJson) (hempty : "" ∉ keys members) (hs : Suits (.obj members) frame)
    (hheader : ∀ m ∈ header, m.2.Distinct)
    (h : SdJwtInstance.issue config (.obj members) frame header = .ok s) (presentFrame : Value)
    (hframe : presentFrame.Distinct) :
    ∃ x claims out x' claims', SdJwt.fromEncode s hasher = .ok x ∧
    x.present (some presentFrame) hasher = .ok out ∧
      SdJwt.fromEncode out hasher = .ok x' ∧ x'.getClaims hasher = .ok claims' ∧
      Withholds claims' claims ∧
        claims.Same (.obj members) := by
  obtain ⟨x, t, ⟨o⟩⟩ := exists_delivered hhasher hh hallowed hsigner hj hs hheader h
  have htop : o.r.unpackedObj.child (.name "") = none := by
    have hsame := o.same [.name ""]
    rw [follow_cons, follow_cons, child_name_obj, lookup_eq_none_iff.mpr hempty] at hsame
    cases hc : o.r.unpackedObj.child (.name "") with
    | none => rfl
    | some v =>
      rw [hc] at hsame
      cases hsame
  obtain ⟨chosen, hpresent, -, hmem, r', hr', -, hw⟩ :=
    o.explains.presents o.parts_eq o.alg_eq o.isJson
    (fun m hm => (o.valuesJson m hm).distinct) o.unpack o.hashedThroughout htop presentFrame hframe
  obtain ⟨d⟩ := decodedFrom o.decoded
  have hparts := o.parts_eq
  rw [SdJwt.parts, d.jwt_eq, d.disclosures_eq, Option.bind_some, d.payload_eq] at hparts
  obtain ⟨hpayload, hdisclosures⟩ := Prod.mk.inj (Except.ok.inj hparts)
  obtain ⟨out, hout, hx'⟩ :=
    d.fromEncode_some o.kbJwt (hdisclosures ▸ fun e he => ((hmem e).mp he).1)
  refine ⟨x, o.r.unpackedObj, out, { x with disclosures := some chosen }, r'.unpackedObj,
    o.decoded, ?_, hx', ?_, hw, o.same⟩
  · rw [SdJwt.present, hpresent, ok_bind, mapM_id_map_some]
    exact hout
  · have hparts : SdJwt.parts { x with disclosures := some chosen } =
        .ok (.obj o.jwtMembers, chosen) := by
      rw [SdJwt.parts]
      dsimp only
      rw [d.jwt_eq, Option.bind_some, d.payload_eq, hpayload]
    rw [SdJwt.getClaims, SdJwt.unpackParts, hparts, ok_bind]
    dsimp only [ownMembers]
    rw [hr']
    rfl

/-! ## An issuer -/

def exampleIssuer : IssuerConfig :=
  { hasher := exampleHasher, saltGenerator := fun n => "salt" ++ Nat.repr n,
    signer := some fun _ => .ok "c2ln", signAlg := "ES256" }

def exampleClaims : List (String × Value) := [("iss", .str "a"), ("given_name", .str "Erika"),
  ("address", .obj [("country", .str "DE"), ("street_address", .str "Schulstr. 12")]),
  ("nationalities", .arr [.str "DE", .str "FR"])]

/-- The address is disclosable and the street in it, and one of the nationalities. -/
def exampleFrame : DisclosureFrame := .frame (some [.name "given_name", .name "address"]) none [
  ("address", .frame (some [.name "street_address"]) (some 1) []),
    ("nationalities", .frame (some [.index 1]) none [])]

theorem exists_exampleIssued :
    ∃ s, SdJwtInstance.issue exampleIssuer (.obj exampleClaims) exampleFrame [] = .ok s := by
  have h : (SdJwtInstance.issue exampleIssuer
      (.obj exampleClaims) exampleFrame []).toOption.isSome = true := by
    decide +kernel
  obtain ⟨s, hs⟩ := Option.isSome_iff_exists.mp h
  exact ⟨s, toOption_eq_some.mp hs⟩

theorem longHashes_example : LongHashes exampleHasher := fun _ _ => by simp [exampleHasher]

theorem plainSignatures_example : ∀ signer, exampleIssuer.signer = some signer →
    PlainSignatures signer := by
  rintro _ ⟨⟩ data signature ⟨⟩
  decide

theorem memberSuits_example {sd : List Key} {frames : List (String × DisclosureFrame)}
    {members : List String} (hinherited : ∀ key ∈ members, key ∉ inheritedNames)
    (hempty : "" ∉ members) :
    ∀ key ∈ members, MemberSuits sd frames key := fun key hkey =>
  ⟨fun hi => absurd hi (hinherited key hkey), fun _ heq => hempty (heq ▸ hkey)⟩

theorem suits_example : Suits (.obj exampleClaims) exampleFrame := by
  refine ⟨by decide, ⟨⟨_, rfl, ?_⟩, ⟨_, rfl, ?_⟩, trivial⟩,
    memberSuits_example (by decide) (by decide)⟩
  · exact ⟨List.nodup_nil, trivial, memberSuits_example (by decide) (by decide)⟩
  · exact ⟨List.nodup_nil, trivial, trivial⟩

theorem issue_getClaims_example : ∃ s x claims,
    SdJwtInstance.issue exampleIssuer (.obj exampleClaims) exampleFrame [] = .ok s ∧
      SdJwt.fromEncode s exampleHasher = .ok x ∧ x.getClaims exampleHasher = .ok claims ∧
        claims.Same (.obj exampleClaims) := by
  obtain ⟨s, hs⟩ := exists_exampleIssued
  obtain ⟨x, claims, h⟩ :=
    issue_getClaims rfl longHashes_example rfl plainSignatures_example (.of_isJson (by decide))
    suits_example (fun m hm => by cases hm) hs
  exact ⟨s, x, claims, hs, h⟩

/-- The street is presented with the address, and the second nationality. -/
def exampleIssuedFrame : Value :=
  .obj [("address", .obj [("street_address", .bool true)]),
    ("nationalities", .obj [("1", .bool true)])]

theorem issue_present_example :
    ∃ x claims out x' claims', SdJwt.present x (some exampleIssuedFrame) exampleHasher = .ok out ∧
    SdJwt.fromEncode out exampleHasher = .ok x' ∧ x'.getClaims exampleHasher = .ok claims' ∧
    Withholds claims' claims ∧
      claims.Same (.obj exampleClaims) := by
  obtain ⟨s, hs⟩ := exists_exampleIssued
  obtain ⟨x, claims, out, x', claims', -, h⟩ :=
    issue_present rfl longHashes_example rfl plainSignatures_example
    (.of_isJson (by decide)) (by decide) suits_example
      (fun m hm => by cases hm) hs exampleIssuedFrame
    (IsJson.of_isJson (by decide)).distinct
  exact ⟨x, claims, out, x', claims', h⟩

end IdentityCommon.SdJwt
