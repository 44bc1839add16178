import IdentityCommon.Jades.Token

/-!
# What the setters of a token keep

The header of a token has distinct names, its payload text is that of the payload bytes, and its
unprotected header is one that the schema returns.

## Main definitions

- `Token.Inv` — what every call keeps

## Main results

- `setProtectedHeader_cases`, `setUnprotectedHeader_cases` — what a setter can do
- `signingTime_of_setSigningTime`, `signingTime_of_setLegacySigningTime` — the header after a
  signing time is set
- `Inv.run` — every setter keeps the invariant
-/

namespace IdentityCommon.Jades

open Ecma AssocList Value Common IdentityCommon.Except

/-! ## Members -/

theorem distinct_delete {members : List (String × Value)} (key : String)
    (h : (obj members).Distinct) :
    (obj (delete key members)).Distinct := by
  rw [obj_distinct_iff] at h ⊢
  exact ⟨(List.filter_sublist.map Prod.fst).nodup h.1,
    fun m hm => h.2 m (List.mem_of_mem_filter hm)⟩

theorem distinct_spread {members others : List (String × Value)} (h : (obj members).Distinct)
    (hothers : ∀ m ∈ others, m.2.Distinct) : (obj (spread members others)).Distinct := by
  induction others generalizing members with
  | nil => exact h
  | cons m others ih =>
    obtain ⟨hfirst, hothers⟩ := List.forall_mem_cons.mp hothers
    exact ih (distinct_insert h hfirst) hothers

theorem lookup_spread {members others : List (String × Value)} (hn : (keys others).Nodup)
    (key : String) :
    (spread members others).lookup key = (others.lookup key).or (members.lookup key) := by
  induction others generalizing members with
  | nil => rfl
  | cons m others ih =>
    obtain ⟨name, value⟩ := m
    obtain ⟨hname, hn⟩ := List.nodup_cons.mp hn
    rw [spread, List.foldl_cons, ← spread, ih hn, lookup_insert]
    by_cases hkey : name = key
    · subst hkey
      rw [lookup_cons_of_eq, lookup_eq_none_iff.mpr hname, if_pos rfl]
      rfl
    · rw [lookup_cons_of_ne (m := (name, value)) hkey, if_neg (Ne.symm hkey)]

theorem lookup_delete_self (key : String) (members : List (String × Value)) :
    (delete key members).lookup key = none := by
  rw [lookup_eq_none_iff]
  intro hmem
  obtain ⟨m, hm, heq⟩ := List.mem_map.mp hmem
  exact of_decide_eq_true (List.mem_filter.mp hm).2 heq

theorem lookup_delete_of_ne {key name : String} (h : name ≠ key) (members : List (String × Value)) :
    (delete key members).lookup name = members.lookup name := by
  induction members with
  | nil => rfl
  | cons m members ih =>
    rw [delete, List.filter_cons]
    by_cases hkey : m.1 = key
    · rw [if_neg (by simpa using hkey), ← delete, ih, lookup_cons_of_ne]
      rw [hkey]
      exact Ne.symm h
    · rw [if_pos (by simpa using hkey), List.lookup_cons, List.lookup_cons, ← delete, ih]

/-- A member is read from the own ones, where no member of its name is inherited. -/
theorem get_obj {key : String} (h : inherited key = undefined) (members : List (String × Value)) :
    (obj members).get key = (members.lookup key).getD undefined := by
  rw [Value.get, h]

theorem distinct_get {v : Value} (h : v.Distinct) {key : String}
    (hkey : inherited key = undefined) :
    (v.get key).Distinct := by
  cases h with
  | leaf l =>
    cases l
    all_goals try exact .leaf _
    · rw [Value.get, hkey]
      split
      all_goals exact .leaf _
    · rw [Value.get, hkey]
      exact .leaf _
  | arr _ => exact .leaf _
  | obj _ hmembers =>
    rw [get_obj hkey]
    exact distinct_getD hmembers key

/-! ## Setters -/

namespace Token

variable {platform : Platform} {token token' : Token} {outcome : Except Error Unit}

/-- The protected header is replaced by what the schema returns, which drops the signature; or
nothing changes. -/
theorem setProtectedHeader_cases (header : Value)
    (h : token.setProtectedHeader platform header = (outcome, token')) :
    (outcome = .error (.jades "Invalid protected header") ∧ token' = token) ∨
      ∃ members, zProtectedHeaderParams platform
          (obj (spread token.protectedHeader (membersOf header))) = some (obj members) ∧
        outcome = .ok () ∧
          token' = { token with protectedHeader := members, signature := none } := by
  unfold setProtectedHeader at h
  split at h
  · obtain ⟨rfl, rfl⟩ := Prod.mk.inj h
    exact .inl ⟨rfl, rfl⟩
  · next data hdata =>
    obtain ⟨rfl, rfl⟩ := Prod.mk.inj h
    obtain ⟨_, known, _, _, rfl⟩ := looseObject_eq_some hdata
    exact .inr ⟨_, hdata, rfl, rfl⟩

theorem setUnprotectedHeader_cases (header : Value)
    (h : token.setUnprotectedHeader platform header = (outcome, token')) :
    (outcome = .error (.jades "Invalid unprotected header") ∧ token' = token) ∨
      ∃ data, zUnprotectedHeader platform header = some data ∧ outcome = .ok () ∧
        token' = { token with unprotectedHeader := some data } := by
  unfold setUnprotectedHeader at h
  split at h
  · obtain ⟨rfl, rfl⟩ := Prod.mk.inj h
    exact .inl ⟨rfl, rfl⟩
  · next data hdata =>
    obtain ⟨rfl, rfl⟩ := Prod.mk.inj h
    exact .inr ⟨data, hdata, rfl, rfl⟩

/-! ## Signing times -/

theorem get_of_setProtectedHeader {header : Value} {key : String} {schema : Schema}
    (hs : (key, schema) ∈ protectedHeaderShape platform) (hkeeps : Keeps schema)
    (h : token.setProtectedHeader platform header = (.ok (), token')) :
    (obj token'.protectedHeader).get key =
      (obj (spread token.protectedHeader (membersOf header))).get key := by
  rcases setProtectedHeader_cases header h with ⟨herror, -⟩ | ⟨members, hdata, -, rfl⟩
  · cases herror
  · exact get_looseObject (nodup_protectedHeaderShape platform) hs hkeeps hdata

theorem accepts_of_setProtectedHeader {header : Value} {key : String} {schema : Schema}
    (hs : (key, optional schema) ∈ protectedHeaderShape platform) (hkey : inherited key = undefined)
    (h : token.setProtectedHeader platform header = (.ok (), token')) {v : Value}
    (hv : v ≠ undefined)
    (hget : (obj (spread token.protectedHeader (membersOf header))).get key = v) :
    (schema v).isSome = true := by
  rcases setProtectedHeader_cases header h with ⟨herror, -⟩ | ⟨members, hdata, -, rfl⟩
  · cases herror
  · have haccepts := schema_get_of_looseObject (nodup_protectedHeaderShape platform) hs hkey hdata
    rw [hget, optional_of_ne hv] at haccepts
    rw [haccepts, Option.isSome_some]

theorem keeps_iat : Keeps (optional zInteger) := keeps_zInteger.optional

theorem keeps_sigT : Keeps (optional (zClaimedSigningTime platform)) := (keeps_textWhere _).optional

theorem mem_protectedHeaderShape_iat :
    ("iat", optional zInteger) ∈ protectedHeaderShape platform := by
  simp [protectedHeaderShape]

theorem mem_protectedHeaderShape_sigT :
    ("sigT", optional (zClaimedSigningTime platform)) ∈ protectedHeaderShape platform := by
  simp [protectedHeaderShape]

/-- A signing time that is set is the one of the header, which has no other kind of signing time
unless it had one. -/
theorem signingTime_of_setSigningTime (hdistinct : (obj token.protectedHeader).Distinct)
    {time : SigningTime} (h : token.setSigningTime platform time = (.ok (), token')) :
    (∃ seconds, time.seconds platform = some seconds ∧ (zInteger (num seconds)).isSome ∧
        (obj token'.protectedHeader).get "iat" = num seconds) ∧
      (obj token'.protectedHeader).get "sigT" = (obj token.protectedHeader).get "sigT" := by
  unfold setSigningTime at h
  split at h
  · cases h
  · next seconds hseconds =>
    have hnodup : (keys (delete "sigT" (insert "iat" (num seconds) token.protectedHeader))).Nodup :=
      (obj_distinct_iff.mp (distinct_delete _ (distinct_insert hdistinct (.leaf _)))).1
    have hiat : (obj (spread token.protectedHeader
        (delete "sigT" (insert "iat" (num seconds) token.protectedHeader)))).get
        "iat" = num seconds := by
      rw [get_obj rfl, lookup_spread hnodup, lookup_delete_of_ne (by decide),
        lookup_insert, if_pos rfl]
      rfl
    constructor
    · refine ⟨seconds, hseconds,
        accepts_of_setProtectedHeader mem_protectedHeaderShape_iat rfl h nofun hiat, ?_⟩
      exact (get_of_setProtectedHeader mem_protectedHeaderShape_iat keeps_iat h).trans hiat
    · rw [get_of_setProtectedHeader mem_protectedHeaderShape_sigT keeps_sigT h,
        get_obj rfl, get_obj rfl]
      dsimp only [membersOf]
      rw [lookup_spread hnodup, lookup_delete_self]
      rfl

theorem signingTime_of_setLegacySigningTime (hdistinct : (obj token.protectedHeader).Distinct)
    {time : String} (h : token.setLegacySigningTime platform time = (.ok (), token')) :
    (zClaimedSigningTime platform (str time)).isSome ∧
    (obj token'.protectedHeader).get "sigT" = str time ∧
      (obj token'.protectedHeader).get "iat" = (obj token.protectedHeader).get "iat" := by
  have hnodup : (keys (delete "iat" (insert "sigT" (str time) token.protectedHeader))).Nodup :=
    (obj_distinct_iff.mp (distinct_delete _ (distinct_insert hdistinct (.leaf _)))).1
  have hsigT :
      (obj (spread token.protectedHeader
        (delete "iat" (insert "sigT" (str time) token.protectedHeader)))).get
      "sigT" = str time := by
    rw [get_obj rfl, lookup_spread hnodup, lookup_delete_of_ne (by decide),
      lookup_insert, if_pos rfl]
    rfl
  refine ⟨accepts_of_setProtectedHeader mem_protectedHeaderShape_sigT rfl h nofun hsigT, ?_, ?_⟩
  · exact (get_of_setProtectedHeader mem_protectedHeaderShape_sigT keeps_sigT h).trans hsigT
  · rw [get_of_setProtectedHeader mem_protectedHeaderShape_iat keeps_iat h,
      get_obj rfl, get_obj rfl]
    dsimp only [membersOf]
    rw [lookup_spread hnodup, lookup_delete_self]
    rfl

/-! ## The invariant -/

/-- What every call of a token keeps. -/
structure Inv (platform : Platform) (token : Token) : Prop where
  distinct : (obj token.protectedHeader).Distinct
  text : token.payloadText = bytesToText token.payloadBytes
  unprotected : ∀ header, token.unprotectedHeader = some header →
    zUnprotectedHeader platform header = some header ∧ record header = some header

theorem text_of_serializePayload {payload : Payload} {bytes : Bytes} {text : String}
    (h : serializePayload payload = .ok (bytes, text)) : text = bytesToText bytes := by
  unfold serializePayload at h
  split at h
  · cases h
    rfl
  · cases h
    rw [bytesToText_stringToBytes]
  · split at h
    · cases h
    · cases h
      rw [bytesToText_stringToBytes]

theorem inv_new {payload : Payload} (h : Token.new payload = .ok token) :
    token.Inv platform ∧ token.signature = none := by
  have hempty : (obj []).Distinct := .obj List.nodup_nil nofun
  unfold Token.new at h
  split_ifs at h
  · cases h
    exact ⟨⟨hempty, (bytesToText_stringToBytes "").symm, nofun⟩, rfl⟩
  · obtain ⟨⟨bytes, text⟩, hserialized, h⟩ := bind_eq_ok.mp h
    cases h
    exact ⟨⟨hempty, text_of_serializePayload hserialized, nofun⟩, rfl⟩

/-- An unprotected header has no other members, so that it is kept where members are copied. -/
theorem record_zUnprotectedHeader {header data : Value}
    (h : zUnprotectedHeader platform header = some data) :
    record data = some data := by
  obtain ⟨members, known, rfl, -, hknown, rfl⟩ := strictObject_eq_some h
  have hkeys := (keys_parseShape hknown).subset
  rw [record, List.filter_eq_self.mpr]
  intro m hm
  have hkey := hkeys (mem_keys_of_mem hm)
  rw [keys, List.map_singleton, List.mem_singleton] at hkey
  simp [hkey]

theorem Inv.setProtectedHeader (h : token.Inv platform) {header : Value}
    (hheader : header.Distinct) :
    (token.setProtectedHeader platform header).2.Inv platform := by
  cases hrun : token.setProtectedHeader platform header
  rcases setProtectedHeader_cases header hrun with ⟨-, rfl⟩ | ⟨members, hdata, -, rfl⟩
  · exact h
  · have hmembers : ∀ m ∈ membersOf header, m.2.Distinct := by
      cases hheader with
      | leaf => exact nofun
      | arr _ => exact nofun
      | obj _ hmembers => exact hmembers
    exact ⟨keepsDistinct_zProtectedHeaderParams platform _ _
      (distinct_spread h.distinct hmembers) hdata, h.text, h.unprotected⟩

theorem Inv.setUnprotectedHeader (h : token.Inv platform) {header : Value} :
    (token.setUnprotectedHeader platform header).2.Inv platform := by
  cases hrun : token.setUnprotectedHeader platform header
  rcases setUnprotectedHeader_cases header hrun with ⟨-, rfl⟩ | ⟨data, hdata, -, rfl⟩
  · exact h
  · refine ⟨h.distinct, h.text, fun header' hheader => ?_⟩
    obtain rfl := Option.some.inj hheader
    exact ⟨settles_zUnprotectedHeader platform _ _ hdata, record_zUnprotectedHeader hdata⟩

theorem Inv.setB64 (h : token.Inv platform) (value : Bool) :
    (token.setB64 value).2.Inv platform := by
  refine ⟨?_, h.text, h.unprotected⟩
  cases value with
  | true => exact distinct_delete _ h.distinct
  | false => exact distinct_insert h.distinct (.leaf _)

theorem Inv.setDetached (h : token.Inv platform) {sigD : Value} (hsigD : sigD.Distinct)
    {payload : Payload} :
    (token.setDetached platform sigD payload).2.Inv platform := by
  unfold Token.setDetached
  split
  · exact h
  · next data hdata =>
    have hdistinct : (obj (insert "sigD" data token.protectedHeader)).Distinct :=
      distinct_insert h.distinct (keepsDistinct_zSigD platform _ _ hsigD hdata)
    have hfinish : ∀ token' : Token, token'.Inv platform →
        (if isText httpHeaders (sigD.get "mId") then token'.setB64 false
          else (.ok (), token')).2.Inv platform := by
      intro token' h'
      split_ifs
      · exact h'.setB64 false
      · exact h'
    dsimp only
    cases payload.isAbsent with
    | true =>
      rw [if_pos rfl]
      exact hfinish _ ⟨hdistinct, h.text, h.unprotected⟩
    | false =>
      rw [if_neg Bool.false_ne_true]
      cases hserialized : serializePayload payload with
      | error e => exact ⟨hdistinct, h.text, h.unprotected⟩
      | ok serialized => exact hfinish _ ⟨hdistinct,
          text_of_serializePayload hserialized, h.unprotected⟩

theorem distinct_obj_singleton {key : String} {value : Value} (h : value.Distinct) :
    (obj [(key, value)]).Distinct :=
  .obj (List.nodup_singleton _) (List.forall_mem_singleton.mpr h)

/-- Every setter keeps the invariant, also where it throws. -/
theorem Inv.run (h : token.Inv platform) (setter : Setter) :
    (setter.run platform token).2.Inv platform := by
  cases setter with
  | protectedHeader header => exact h.setProtectedHeader header.2
  | unprotectedHeader header => exact h.setUnprotectedHeader
  | x5c certs =>
    refine h.setProtectedHeader (distinct_obj_singleton (.arr fun x hx => ?_))
    obtain ⟨s, -, rfl⟩ := List.mem_map.mp hx
    exact .leaf _
  | x5tO digest => exact h.setProtectedHeader (distinct_obj_singleton digest.2)
  | signingTime time =>
    rw [Setter.run, Token.setSigningTime]
    split
    · exact h
    · exact h.setProtectedHeader (distinct_delete _ (distinct_insert h.distinct (.leaf _)))
  | legacySigningTime time =>
      exact h.setProtectedHeader (distinct_delete _ (distinct_insert h.distinct (.leaf _)))
  | b64 value => exact h.setB64 value
  | detached sigD payload => exact h.setDetached sigD.2
  | x5u _ | x5tS256 _ | kid _ | contentType _ | type _ =>
      exact h.setProtectedHeader (distinct_obj_singleton (.leaf _))

end Token

end IdentityCommon.Jades
