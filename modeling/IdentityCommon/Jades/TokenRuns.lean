import IdentityCommon.Jades.Serialization
import IdentityCommon.Jades.SignedContent

/-!
# Runs of a token

A token is changed by its setters and signed by signers that answer later, in any order.

## Main definitions

- `Setter.Sound`, `Sound` — the setters and the answers that run into no defect
- `Session.Inv` — what such a step keeps
- `Session.Holds` — what is promised of a token in every state

## Main results

- `Session.Inv.step` — a sound step keeps the invariant
- `holds_run` — the promise holds after every run of sound steps
-/

namespace IdentityCommon.Jades

open Ecma AssocList Value Common IdentityCommon.Except

/-! ## Setters -/

/-- The setter runs into no defect: a payload that is not serializable is found after the token has
changed, and the other kind of signing time comes back from the header that it was deleted from. -/
def Setter.Sound (platform : Platform) (token : Token) : Setter → Prop
  | detached sigD payload =>
    (zSigD platform sigD.1).isSome → payload.isAbsent = false → (serializePayload payload).isOk
  | signingTime time =>
    ∀ seconds, time.seconds platform = some seconds → (zInteger (num seconds)).isSome →
      (obj token.protectedHeader).get "sigT" = undefined
  | legacySigningTime time =>
    (zClaimedSigningTime platform (str time)).isSome →
    (obj token.protectedHeader).get "iat" = undefined
  | _ => True

section

variable {platform : Platform} {token token' : Token} {e : Error}

theorem Token.setProtectedHeader_error {header : Value}
    (h : token.setProtectedHeader platform header = (.error e, token')) : token' = token := by
  rcases setProtectedHeader_cases header h with ⟨-, hsame⟩ | ⟨-, -, hok, -⟩
  · exact hsame
  · cases hok

theorem Token.setSigningTime_error {time : SigningTime}
    (h : token.setSigningTime platform time = (.error e, token')) : token' = token := by
  unfold setSigningTime at h
  split at h
  · exact (Prod.mk.inj h).2.symm
  · exact setProtectedHeader_error h

theorem Token.setDetached_error {sigD : Value} {payload : Payload}
    (hserializable : (zSigD platform sigD).isSome → payload.isAbsent = false →
      (serializePayload payload).isOk)
    (h : token.setDetached platform sigD payload = (.error e, token')) : token' = token := by
  unfold setDetached at h
  split at h
  · exact (Prod.mk.inj h).2.symm
  · next data hdata =>
    -- once the reference is accepted, nothing else throws
    have hfinish : ∀ token : Token, (if isText httpHeaders (sigD.get "mId") then token.setB64 false
        else (.ok (), token)) ≠
        (.error e, token') := by
      intro token
      split_ifs
      · exact fun h => nomatch (Prod.mk.inj h).1
      · exact fun h => nomatch (Prod.mk.inj h).1
    rw [hdata] at hserializable
    dsimp only at h
    cases habsent : payload.isAbsent with
    | true =>
      rw [habsent, if_pos rfl] at h
      exact absurd h (hfinish _)
    | false =>
      rw [habsent, if_neg Bool.false_ne_true] at h
      have hok := hserializable rfl habsent
      cases hserialized : serializePayload payload with
      | error e' =>
        rw [hserialized] at hok
        cases hok
      | ok serialized =>
        rw [hserialized] at h
        exact absurd h (hfinish _)

/-- A setter that throws leaves the token as it was. -/
theorem Setter.Sound.run_error {setter : Setter} (hsound : setter.Sound platform token)
    (h : setter.run platform token = (.error e, token')) : token' = token := by
  cases setter with
  | unprotectedHeader header =>
    rcases Token.setUnprotectedHeader_cases _ h with ⟨-, hsame⟩ | ⟨-, -, hok, -⟩
    · exact hsame
    · cases hok
  | signingTime time => exact Token.setSigningTime_error h
  | b64 value => cases (Prod.mk.inj h).1
  | detached sigD payload => exact Token.setDetached_error hsound h
  | protectedHeader _ | x5c _ | x5u _ | x5tS256 _ | x5tO _ | legacySigningTime _ | kid _
  | contentType _ | type _ =>
    exact Token.setProtectedHeader_error h

/-- The signature of a token is dropped, or only its unprotected header is another one. -/
def Token.KeepsSignature (token token' : Token) : Prop :=
  token'.signature = none ∨ ∃ header, token' = { token with unprotectedHeader := header }

theorem Token.keepsSignature_refl (token : Token) : token.KeepsSignature token :=
  .inr ⟨token.unprotectedHeader, rfl⟩

theorem Token.keepsSignature_setProtectedHeader (header : Value) :
    token.KeepsSignature (token.setProtectedHeader platform header).2 := by
  cases hrun : token.setProtectedHeader platform header
  rcases setProtectedHeader_cases header hrun with ⟨-, rfl⟩ | ⟨members, -, -, rfl⟩
  · exact keepsSignature_refl _
  · exact .inl rfl

theorem Token.keepsSignature_setDetached (sigD : Value) (payload : Payload) :
    token.KeepsSignature (token.setDetached platform sigD payload).2 := by
  unfold setDetached
  split
  · exact keepsSignature_refl _
  · left
    dsimp only
    split_ifs
    · rfl
    · rfl
    · split <;> rfl
    · split <;> rfl

/-- A setter of anything that is signed drops the signature. -/
theorem Setter.keepsSignature_run (setter : Setter) :
    token.KeepsSignature (setter.run platform token).2 := by
  cases setter with
  | unprotectedHeader header =>
    cases hrun : token.setUnprotectedHeader platform header.1
    rw [Setter.run, hrun]
    rcases Token.setUnprotectedHeader_cases _ hrun with ⟨-, rfl⟩ | ⟨data, -, -, rfl⟩
    · exact Token.keepsSignature_refl _
    · exact .inr ⟨some data, rfl⟩
  | signingTime time =>
    rw [Setter.run, Token.setSigningTime]
    split
    · exact Token.keepsSignature_refl _
    · exact Token.keepsSignature_setProtectedHeader _
  | b64 value => exact .inl rfl
  | detached sigD payload => exact Token.keepsSignature_setDetached _ _
  | protectedHeader _ | x5c _ | x5u _ | x5tS256 _ | x5tO _ | legacySigningTime _ | kid _
  | contentType _ | type _ =>
    exact Token.keepsSignature_setProtectedHeader _

end

/-! ## Sessions -/

/-- The step runs into no defect. A signer that answers has been asked for the signing input that
the token has now, and the token can be verified: its header is accepted as it is read from JSON,
and a payload that is attached as it is is a text. -/
def Sound (platform : Platform) (s : Session) : Action → Prop
  | .set setter => setter.Sound platform s.token
  | .resolve index signature =>
    ∀ data, s.pending[index]? = some data → isBase64Url signature.toList = true →
      s.token.validateBeforeSign platform = .ok () →
      ⟨s.token.signingInput, signature⟩ ∈ (⟨data, signature⟩ :: s.signed : List Call) ∧
        (s.token.readHeader platform).isSome ∧
        (s.token.isUnencoded = true → s.token.detached = false → isUtf8 s.token.payloadBytes = true)
  | _ => True

namespace Session

variable {platform : Platform} {s : Session}

/-- What a sound step keeps. -/
structure Inv (platform : Platform) (s : Session) : Prop where
  token : s.token.Inv platform
  signed : ∀ signature, s.token.signature = some signature →
    s.token.IsSigned platform s.signed signature

theorem Inv.keepsSignature (h : s.Inv platform) {token : Token} (htoken : token.Inv platform)
    (hkeeps : s.token.KeepsSignature token) : ({ s with token } : Session).Inv platform := by
  refine ⟨htoken, fun signature hsignature => ?_⟩
  rcases hkeeps with hnone | ⟨header, rfl⟩
  · cases hnone.symm.trans hsignature
  · have hsigned := h.signed signature hsignature
    exact ⟨hsigned.mem, hsigned.base64Url, hsigned.valid, hsigned.reads, hsigned.text⟩

/-- A signature that a sound answer leaves is one over the signing input of the token. -/
theorem Inv.resolve (h : s.Inv platform) {index : ℕ} {signature : String}
    (hsound : Sound platform s (.resolve index signature)) :
    (step platform s (.resolve index signature)).Inv platform := by
  unfold step perform
  dsimp only
  split
  · exact h
  · next data hdata =>
    have hsound := hsound data hdata
    -- an older signature stays one that a signer returned
    have hkeep : ({ s with
        signed := ⟨data, signature⟩ :: s.signed
        pending := s.pending.eraseIdx index } : Session).Inv platform := by
      refine ⟨h.token, fun signature' hsignature => ?_⟩
      have hsigned := h.signed signature' hsignature
      exact ⟨List.mem_cons_of_mem _ hsigned.mem, hsigned.base64Url, hsigned.valid,
        hsigned.reads, hsigned.text⟩
    unfold Token.setSignature
    cases hvalid : s.token.validateBeforeSign platform with
    | error e => exact hkeep
    | ok _ =>
      dsimp only
      split_ifs with hbase64
      · obtain ⟨hmem, hreads, htext⟩ := hsound hbase64 hvalid
        refine ⟨⟨h.token.distinct, h.token.text, h.token.unprotected⟩,
          fun signature' hsignature => ?_⟩
        obtain rfl := Option.some.inj hsignature
        exact ⟨hmem, hbase64, hvalid, Option.isSome_iff_exists.mp hreads, htext⟩
      · exact hkeep

/-- A sound step keeps the invariant. -/
theorem Inv.step (h : s.Inv platform) {action : Action} (hsound : Sound platform s action) :
    (step platform s action).Inv platform := by
  cases action with
  | set setter => exact h.keepsSignature (h.token.run setter) setter.keepsSignature_run
  | sign =>
    unfold Jades.step perform
    dsimp only
    split
    · exact h
    · exact ⟨h.token, h.signed⟩
  | resolve index signature => exact h.resolve hsound
  | reject index => exact ⟨h.token, h.signed⟩

/-- What is promised of a token in every state. -/
structure Holds (platform : Platform) (s : Session) : Prop where
  /-- A setter that throws leaves the token as it was. -/
  atomic : ∀ setter : Setter, setter.Sound platform s.token → ∀ e token',
    setter.run platform s.token = (.error e, token') → token' = s.token
  /-- A signing time that is set is the only one of the header. -/
  signingTime : ∀ time, (Setter.signingTime time).Sound platform s.token → ∀ token',
    s.token.setSigningTime platform time = (.ok (), token') →
      (∃ seconds, time.seconds platform = some seconds ∧
        (obj token'.protectedHeader).get "iat" = num seconds) ∧
        (obj token'.protectedHeader).get "sigT" = undefined
  legacySigningTime : ∀ time, (Setter.legacySigningTime time).Sound platform s.token → ∀ token',
    s.token.setLegacySigningTime platform time = (.ok (), token') →
      (obj token'.protectedHeader).get "sigT" = str time ∧
      (obj token'.protectedHeader).get "iat" = undefined
  /-- Every serialization verifies, over a signing input and a signature that a signer was called
  with and returned. -/
  compact : ∀ options, s.token.Fits options → ∀ jws, s.token.toCompact = .ok jws →
    s.token.VerifiesAs platform s.signed options (str jws)
  json : ∀ options, s.token.Fits options → ∀ jws, s.token.toJson = .ok jws →
    s.token.VerifiesAs platform s.signed options jws
  flattened : ∀ options, s.token.Fits options → ∀ jws, s.token.toFlattenedJson = .ok jws →
    s.token.VerifiesAs platform s.signed options jws

theorem Inv.holds (h : s.Inv platform) : s.Holds platform := by
  constructor
  · exact fun setter hsound e token' hrun => hsound.run_error hrun
  · intro time hsound token' hrun
    obtain ⟨⟨seconds, hseconds, haccepts, hiat⟩, hsigT⟩ :=
      Token.signingTime_of_setSigningTime h.token.distinct hrun
    exact ⟨⟨seconds, hseconds, hiat⟩, hsigT.trans (hsound seconds hseconds haccepts)⟩
  · intro time hsound token' hrun
    obtain ⟨haccepts, hsigT, hiat⟩ :=
      Token.signingTime_of_setLegacySigningTime h.token.distinct hrun
    exact ⟨hsigT, hiat.trans (hsound haccepts)⟩
  · exact fun options hfits jws hjws => Token.verifiesAs_compact h.token h.signed hfits hjws
  · exact fun options hfits jws hjws => Token.verifiesAs_json h.token h.signed hfits hjws
  · exact fun options hfits jws hjws => Token.verifiesAs_flattened h.token h.signed hfits hjws

end Session

/-- The promise holds after every run of sound steps on a new token. -/
theorem holds_run (platform : Platform) {payload : Payload} {token : Token}
    (hnew : Token.new payload = .ok token) (actions : List Action)
    (hsound : Run.Guarded (step platform) (Sound platform) { token } actions) :
    (Run.run (step platform) { token } actions).Holds platform := by
  obtain ⟨htoken, hnone⟩ := Token.inv_new hnew
  have hinit : Session.Inv platform { token } := ⟨htoken, fun signature hsignature => by
    cases hnone.symm.trans hsignature⟩
  exact (Run.invariant (fun _ _ h hsound => h.step hsound) hinit hsound).holds

/-! ## Runs -/

/-- A platform that knows one time. -/
def datedPlatform : Platform :=
  { examplePlatform with
    dateParse value := if value = "2024-01-01T00:00:00Z" then some 1704067200000 else none }

def signingHeader : Argument :=
  ⟨obj [("alg", str "ES256"), ("x5t#S256", str "YWJj"), ("iat", num 1780000000)],
    (show Value.IsJson _ from .of_isJson (by decide)).distinct⟩

def exampleToken : Token where
  payload := .value (str "hi")
  payloadBytes := stringToBytes "hi"
  payloadText := "hi"

/-- The token with its header. -/
def headedToken : Token := (exampleToken.setProtectedHeader datedPlatform signingHeader.1).2

theorem validateBeforeSign_headedToken : headedToken.validateBeforeSign datedPlatform = .ok () := by
  decide +kernel

theorem step_sign {platform : Platform} {s : Session}
    (h : s.token.validateBeforeSign platform = .ok ()) :
    step platform s .sign = { s with pending := s.pending ++ [s.token.signingInput] } := by
  unfold step perform
  rw [h]

/-- A token that a signer has signed is serialized. -/
theorem holds_run_signed : ∃ token, Token.new (.value (str "hi")) = .ok token ∧
    (Run.run (step datedPlatform) { token } [.set (.protectedHeader signingHeader), .sign,
      .resolve 0 "c2ln"]).Holds datedPlatform ∧
    (Run.run (step datedPlatform) { token } [.set (.protectedHeader signingHeader), .sign,
      .resolve 0 "c2ln"]).token.signature = some "c2ln" := by
  have hsign := step_sign (s := { token := headedToken }) validateBeforeSign_headedToken
  have hnew : Token.new (.value (str "hi")) = .ok exampleToken := rfl
  refine ⟨exampleToken, hnew, holds_run datedPlatform hnew _ ⟨trivial, trivial, ?_, trivial⟩, ?_⟩
  · rw [show step datedPlatform { token := exampleToken } (.set (.protectedHeader signingHeader)) =
      { token := headedToken } from rfl, hsign]
    intro data hdata _ _
    obtain rfl := Option.some.inj hdata
    exact ⟨.head _, by decide +kernel, fun _ _ => by decide +kernel⟩
  · decide +kernel

/-- A legacy signing time stays beside a signing time that is set after it, a payload that is not
serializable leaves a token detached, and a signature over a header stays when the header changes
before the signer answers. -/
theorem promise_broken : ∃ token, Token.new (.value (str "hi")) = .ok token ∧
    (∃ token', ((token.setLegacySigningTime datedPlatform "2024-01-01T00:00:00Z").2.setSigningTime
      datedPlatform
        (.now 1780000000000)) = (.ok (), token') ∧
          (obj token'.protectedHeader).get "sigT" ≠ undefined) ∧
    (∃ e token', token.setDetached datedPlatform
      (obj [("mId", str objectByUri), ("pars", arr [str "http://a"])])
        (.value (leaf (.builtin "f"))) = (.error e, token') ∧ token'.detached ≠ token.detached) ∧
    ∃ s, s = Run.run (step datedPlatform) { token } [.set (.protectedHeader signingHeader), .sign,
      .set (.kid "k"),
        .resolve 0 "c2ln"] ∧
      s.token.signature = some "c2ln" ∧ ∀ call ∈ s.signed, call.data ≠ s.token.signingInput := by
  refine ⟨exampleToken, rfl, ?_, ?_, _, rfl, ?_, ?_⟩
  · have hok :
        ((exampleToken.setLegacySigningTime datedPlatform "2024-01-01T00:00:00Z").2.setSigningTime
          datedPlatform
        (.now 1780000000000)).1 = .ok () := by decide +kernel
    have hsigT : isUndefined ((obj ((exampleToken.setLegacySigningTime datedPlatform
        "2024-01-01T00:00:00Z").2.setSigningTime datedPlatform
          (.now 1780000000000)).2.protectedHeader).get "sigT") =
        false := by decide +kernel
    refine ⟨_, Prod.ext hok rfl, fun h => ?_⟩
    rw [h] at hsigT
    cases hsigT
  · exact ⟨.jades "Payload is not JSON serializable", _, Prod.ext (by decide +kernel) rfl, by
      decide +kernel⟩
  · decide +kernel
  · decide +kernel

end IdentityCommon.Jades
