import IdentityCommon.Cose.CwtClaims
import IdentityCommon.Jose.JwtClaims

/-!
# Validity windows

The validity window of a token, in exact arithmetic, against the two implementations of its checks:
that of a CWT, on dates, and that of a JWT, on numbers of seconds.

## Main definitions

- `Window`, `TimeClaims` — when and how a token is verified, and its time claims
- `Window.Outside` — a check that fails in exact arithmetic
- `Window.Enforced` — both implementations reject exactly the tokens outside their window
- `Window.Seen`, `Window.Clear` — a failing claim that has a date, as its bound has; claims that
  rounding does not move across `now`, or across the end of the dates

## Main results

- `enforced_of_seen` — tokens whose window is enforced, and where it is not
-/

namespace IdentityCommon.Cose

open Ecma Value

/-- The time claims of a token. -/
structure TimeClaims where
  exp : Option Finite := none
  nbf : Option Finite := none
  iat : Option Finite := none

/-- A claims set of a CWT that has these time claims. -/
structure TimeClaims.InCwt (t : TimeClaims) (claims : Claims) : Prop where
  exp : claims.get .expirationTime = t.exp.map .number
  nbf : claims.get .notBefore = t.nbf.map .number
  iat : claims.get .issuedAt = t.iat.map .number

/-- A member that is a number, or is not there. -/
def HasNumber (payload : Value) (claim : String) : Option Finite → Prop
  | none => payload.get claim = undefined
  | some x => ∃ n, payload.get claim = num n ∧ Double.ofNumber n = .finite x

/-- A payload of a JWT that has these time claims. -/
structure TimeClaims.InJwt (t : TimeClaims) (payload : Value) : Prop where
  exp : HasNumber payload "exp" t.exp
  nbf : HasNumber payload "nbf" t.nbf
  iat : HasNumber payload "iat" t.iat

/-- When a token is verified, with which skew, and which of its time claims are checked. -/
structure Window where
  now : TimeValue
  skewSeconds : Double
  checkExpirationTime : Bool := true
  checkNotBefore : Bool := true
  checkIssuedAt : Bool := true

/-- Whether a claim says when a token is no longer valid, or when it becomes valid. -/
inductive Bound
  | upper
  | lower

namespace Window

variable (w : Window)

def cwtOptions : VerifyCwtClaimsOptions where
  now := some w.now
  skewSeconds := some w.skewSeconds
  checkExpirationTime := w.checkExpirationTime
  checkNotBefore := w.checkNotBefore
  checkIssuedAt := w.checkIssuedAt

def jwtOptions : Jose.VerifyJwtClaimsOptions where
  now := some w.now
  skewSeconds := some w.skewSeconds
  checkExpirationTime := w.checkExpirationTime
  checkNotBefore := w.checkNotBefore
  checkIssuedAt := w.checkIssuedAt

/-- The claims that are checked. -/
def checked (t : TimeClaims) : List (Bound × Finite) :=
  (if w.checkExpirationTime then t.exp.toList.map (.upper, ·) else []) ++
    (if w.checkNotBefore then t.nbf.toList.map (.lower, ·) else []) ++
    (if w.checkIssuedAt then t.iat.toList.map (.lower, ·) else [])

/-! ## Exact arithmetic -/

/-- The instant, in milliseconds, that a bound is at: `exp + skew`, `nbf - skew` or `iat - skew`. -/
def instant (s : Finite) : Bound × Finite → ℚ
  | (.upper, x) => x.value * 1000 + s.value * 1000
  | (.lower, x) => x.value * 1000 - s.value * 1000

/-- A claim that fails its check, in exact arithmetic. -/
def Fails (s : Finite) : Bound × Finite → Prop
  | (.upper, x) => instant s (.upper, x) ≤ w.now.ms
  | (.lower, x) => w.now.ms < instant s (.lower, x)

/-- The token is outside its validity window. -/
def Outside (t : TimeClaims) : Prop :=
  ∃ s, w.skewSeconds = .finite s ∧ ∃ c ∈ w.checked t, w.Fails s c

/-- Both implementations reject exactly the tokens outside their window. -/
def Enforced (t : TimeClaims) (claims : Claims) (payload : Value) : Prop :=
  (verifyClaims claims w.cwtOptions ≠ .ok () ↔ w.Outside t) ∧
    (Jose.verifyJwtClaims payload w.jwtOptions ≠ .ok () ↔ verifyClaims claims w.cwtOptions ≠ .ok ())

/-! ## Conditions -/

/-- The claim is the instant of a JavaScript date. -/
def HasDate (c : Bound × Finite) : Prop := |c.2.value * 1000| ≤ maxTime

/-- The bound is the instant of a JavaScript date. -/
def InRange (s : Finite) (c : Bound × Finite) : Prop := |instant s c| ≤ maxTime

/-- One of the claims that fail their check is the instant of a date, and so is its bound. -/
def Seen (t : TimeClaims) : Prop :=
  ∃ s, w.skewSeconds = .finite s ∧ ∃ c ∈ w.checked t, w.Fails s c ∧ HasDate c ∧ InRange s c

/-- A whole number of milliseconds. -/
def Whole (x : Finite) : Prop := ∃ n : ℤ, x.value * 1000 = n

/-- The claim and the skew are whole numbers of milliseconds, and that of the skew is a double. -/
def Exact (s : Finite) (c : Bound × Finite) : Prop :=
  Whole c.2 ∧ Whole s ∧ ∃ y : Finite, y.value = s.value * 1000

/-- The end of the dates that a bound which fails its check is inside of. -/
def endOfDates : Bound → ℤ
  | .upper => -maxTime
  | .lower => maxTime

/-- The arithmetic of the check is exact, or the bound is not within four milliseconds of `now`,
nor, where the skew is negative, of the end of the dates. -/
def ClearOf (s : Finite) (c : Bound × Finite) : Prop :=
  Exact s c ∨ 4 ≤ |instant s c - w.now.ms| ∧ (0 ≤ s.value ∨ 4 ≤ |instant s c - endOfDates c.1|)

/-- No bound is moved across `now` where its parts are rounded. -/
def Clear (t : TimeClaims) : Prop :=
  ∀ s, w.skewSeconds = .finite s → ∀ c ∈ w.checked t, w.ClearOf s c

/-- The skew is a finite number that is not negative. -/
def SkewOk : Prop := ∃ s, w.skewSeconds = .finite s ∧ 0 ≤ s.value

/-! ## Rounded arithmetic -/

/-- A claim that fails its check on dates. -/
def cwtFails : Bound × Finite → Bool
  | (.upper, x) => isInPast (some w.now) w.cwtOptions.skewMs (secondsToDate (.finite x))
  | (.lower, x) => isInFuture (some w.now) w.cwtOptions.skewMs (secondsToDate (.finite x))

/-- A claim that fails its check on seconds. -/
def jwtFails : Bound × Finite → Bool
  | (.upper, x) => Jose.isExpired w.jwtOptions (.finite x)
  | (.lower, x) => Jose.isInFuture w.jwtOptions (.finite x)

variable {w}

theorem forall_mem_checked {t : TimeClaims} {p : Bound × Finite → Prop} :
    (∀ c ∈ w.checked t, p c) ↔
      (w.checkExpirationTime = true → ∀ x, t.exp = some x → p (.upper, x)) ∧
      (w.checkNotBefore = true → ∀ x, t.nbf = some x → p (.lower, x)) ∧
        (w.checkIssuedAt = true → ∀ x, t.iat = some x → p (.lower, x)) := by
  have hpart : ∀ (check : Bool) (bound : Bound) (claim : Option Finite),
      (∀ c ∈ (if check then claim.toList.map (bound, ·) else []), p c) ↔
        (check = true → ∀ x, claim = some x → p (bound, x)) := by
    intro check bound claim
    cases check <;> cases claim <;> simp
  rw [checked, List.forall_mem_append, List.forall_mem_append, hpart, hpart, hpart, and_assoc]

theorem cwt_accepts {t : TimeClaims} {claims : Claims} (h : t.InCwt claims) :
    verifyClaims claims w.cwtOptions = .ok () ↔ ∀ c ∈ w.checked t, w.cwtFails c = false := by
  have hdate : ∀ {check : Bool} {key : ClaimKey} {claim : Option Finite} {fails : Date → Bool},
      claims.get key = claim.map .number → (DateOk check key claims fails ↔
        (check = true → ∀ x, claim = some x → fails (secondsToDate (.finite x)) = false)) := by
    intro check key claim fails hget
    unfold DateOk
    rw [hget]
    cases claim <;> simp
  rw [verifyClaims_eq_ok, forall_mem_checked]
  constructor
  · intro hok
    exact ⟨(hdate h.exp).mp hok.expirationTime, (hdate h.nbf).mp hok.notBefore,
      (hdate h.iat).mp hok.issuedAt⟩
  · rintro ⟨hexp, hnbf, hiat⟩
    exact ⟨nofun, nofun, nofun, nofun, (hdate h.exp).mpr hexp, (hdate h.nbf).mpr hnbf,
      (hdate h.iat).mpr hiat⟩

theorem jwt_accepts {t : TimeClaims} {payload : Value} (h : t.InJwt payload) :
    Jose.verifyJwtClaims payload w.jwtOptions = .ok () ↔ w.SkewOk ∧
    ∀ c ∈ w.checked t, w.jwtFails c = false := by
  have hnumber : ∀ {check : Bool} {claim : String} {value : Option Finite} {fails : Double → Bool},
      HasNumber payload claim value → (Jose.NumericDateOk check claim payload fails ↔
        (check = true → ∀ x, value = some x → fails (.finite x) = false)) := by
    intro check claim value fails hvalue
    unfold Jose.NumericDateOk
    refine imp_congr_right fun _ => ?_
    cases value with
    | none =>
      rw [HasNumber] at hvalue
      simp [hvalue]
    | some x =>
      obtain ⟨n, hget, hn⟩ := hvalue
      simp [hget, hn, Double.isFinite]
  have hskew : w.jwtOptions.Usable ↔ w.SkewOk := by
    constructor
    · intro hu
      have hs := hu.skew
      simp only [jwtOptions, Jose.VerifyJwtClaimsOptions.skew, Option.getD_some] at hs
      cases hd : w.skewSeconds with
      | nan => rw [hd] at hs; cases hs
      | infinite negative => rw [hd] at hs; cases hs
      | finite s =>
        rw [hd] at hs
        exact ⟨s, hd, Jose.isNonNegativeFiniteNumber_finite s |>.mp hs⟩
    · rintro ⟨s, hs, hpos⟩
      refine ⟨rfl, ?_, fun _ h => by cases h⟩
      simp only [jwtOptions, Jose.VerifyJwtClaimsOptions.skew, Option.getD_some, hs]
      exact (Jose.isNonNegativeFiniteNumber_finite s).mpr hpos
  rw [Jose.verifyJwtClaims_eq_ok, forall_mem_checked, hskew]
  refine and_congr_right fun _ => ⟨fun hok => ?_, ?_⟩
  · exact ⟨(hnumber h.exp).mp hok.expirationTime, (hnumber h.nbf).mp hok.notBefore,
      (hnumber h.iat).mp hok.issuedAt⟩
  · rintro ⟨hexp, hnbf, hiat⟩
    constructor
    case expirationTime => exact (hnumber h.exp).mpr hexp
    case notBefore => exact (hnumber h.nbf).mpr hnbf
    case issuedAt => exact (hnumber h.iat).mpr hiat
    all_goals
      intro _ heq
      cases heq

/-! ## On seconds -/

/-- Numbers of seconds that are a millisecond apart stay apart when they are rounded. -/
theorem round_lt_round {a b : ℚ} (hb : |b| ≤ 8640000000000) (h : b + 1 / 1000 ≤ a) :
    binary64.round b < binary64.round a := by
  have hulp : ∀ x : ℚ, |x| ≤ 2 ^ 43 → |binary64.round x - x| ≤ 1 / 2048 := by
    intro x hx
    have := FloatFormat.abs_round_sub_le_ulp binary64_precision (x := x) (e := -10) (by decide)
      (by norm_num [binary64] at hx ⊢; exact hx)
    norm_num at this ⊢
    exact this
  have hb' := abs_le.mp (hulp b (hb.trans (by norm_num)))
  have hbl := abs_le.mp hb
  rcases le_or_gt a (2 ^ 43) with ha | ha
  · have ha' := abs_le.mp (hulp a (abs_le.mpr ⟨by linarith, ha⟩))
    linarith [hb'.2, ha'.1]
  · have hbig := intCast_le_round (q := a) (n := 2 ^ 43) (by norm_num) (by push_cast; exact ha.le)
    push_cast at hbig
    linarith [hb'.2]

/-- A number of seconds is compared exactly with one that it is not within a millisecond of. -/
theorem ofRat_le_iff {a b : ℚ} (hb : |b| ≤ 8640000000000) (h : a ≤ b ∨ b + 1 / 1000 ≤ a) :
    (Double.ofRat a).le (Double.ofRat b) = true ↔ a ≤ b := by
  rcases h with hle | hgap
  · exact iff_of_true (Double.le_ofRat hle) hle
  · refine iff_of_false ?_ (by linarith)
    have hlt := round_lt_round hb hgap
    have hbr : |binary64.round b| < overflow := by
      refine lt_of_le_of_lt (b := 2 ^ 43) ?_ (lt_overflow (by decide))
      have hbl := abs_le.mp hb
      refine abs_le.mpr ⟨?_, ?_⟩
      · have := intCast_le_round (q := b) (n := -2 ^ 43) (by norm_num) (by push_cast; linarith)
        exact_mod_cast this
      · have := round_le_intCast (q := b) (n := 2 ^ 43) (by norm_num) (by push_cast; linarith)
        exact_mod_cast this
    obtain ⟨y, hy, hyv⟩ := Double.ofRat_eq_finite hbr
    rw [hy]
    by_cases har : |binary64.round a| < overflow
    · obtain ⟨x, hx, hxv⟩ := Double.ofRat_eq_finite har
      rw [hx, Double.le_finite, hxv, hyv]
      exact not_le.mpr hlt
    · rw [Double.ofRat_eq_infinite har]
      have hpos : ¬ a < 0 := by
        intro hneg
        have hround := round_le_intCast (q := a) (n := 0) (by norm_num) (by exact_mod_cast hneg.le)
        rw [abs_of_nonpos (by exact_mod_cast hround)] at har
        have := (abs_lt.mp hbr).1
        linarith
      simp [hpos, Double.le]

theorem nowSeconds_eq : w.jwtOptions.nowSeconds = Double.ofRat (w.now.ms / 1000) := by
  simp [Jose.VerifyJwtClaimsOptions.nowSeconds, jwtOptions, Date.getTime, TimeValue.toFinite,
    thousand, Double.div]

theorem abs_nowSeconds_le : |(w.now.ms : ℚ) / 1000| ≤ 8640000000000 := by
  have h : |(w.now.ms : ℚ)| ≤ (maxTime : ℚ) := by exact_mod_cast w.now.inRange
  rw [abs_div, abs_of_pos (by norm_num : (0 : ℚ) < 1000), div_le_iff₀ (by norm_num)]
  exact h.trans (by norm_num [maxTime])

/-- A bound that is clear of `now` is at it, before it, or a millisecond after it. -/
theorem instant_cases {s : Finite} {c : Bound × Finite} (h : w.ClearOf s c) :
    instant s c ≤ w.now.ms ∨ (w.now.ms : ℚ) + 1 ≤ instant s c := by
  rcases h with ⟨⟨n, hn⟩, ⟨m, hm⟩, -⟩ | ⟨hfar, -⟩
  · obtain ⟨k, hk⟩ : ∃ k : ℤ, instant s c = k := by
      obtain ⟨bound, x⟩ := c
      cases bound with
      | upper => exact ⟨n + m, by simp only [instant] at *; rw [hn, hm]; push_cast; ring⟩
      | lower => exact ⟨n - m, by simp only [instant] at *; rw [hn, hm]; push_cast; ring⟩
    rw [hk]
    rcases le_or_gt k w.now.ms with hle | hlt
    · exact .inl (by exact_mod_cast hle)
    · exact .inr (by exact_mod_cast hlt)
  · rcases le_abs.mp hfar with hlate | hearly
    · exact .inr (by linarith)
    · exact .inl (by linarith)

theorem jwtFails_iff {s : Finite} {c : Bound × Finite} (hs : w.skewSeconds = .finite s)
    (h : w.ClearOf s c) :
    w.jwtFails c = true ↔ w.Fails s c := by
  have hcases := instant_cases h
  have hskew : w.jwtOptions.skew = .finite s := by
    simp [Jose.VerifyJwtClaimsOptions.skew, jwtOptions, hs]
  obtain ⟨bound, x⟩ := c
  cases bound with
  | upper =>
    have hsec : instant s (.upper, x) = (x.value + s.value) * 1000 := by rw [instant]; ring
    rw [hsec] at hcases
    rw [jwtFails, Jose.isExpired, hskew, nowSeconds_eq, Double.add, Fails, hsec,
      ofRat_le_iff abs_nowSeconds_le]
    · rw [le_div_iff₀ (by norm_num)]
    · refine hcases.imp (fun h => ?_) fun h => ?_
      · rwa [le_div_iff₀ (by norm_num)]
      · rw [← add_div, div_le_iff₀ (by norm_num)]
        exact h
  | lower =>
    have hsec : instant s (.lower, x) = (x.value + s.neg.value) * 1000 := by
      rw [instant, Finite.neg]
      ring
    rw [hsec] at hcases
    have hle := ofRat_le_iff (a := x.value + s.neg.value) (abs_nowSeconds_le (w := w)) (by
      refine hcases.imp (fun h => ?_) fun h => ?_
      · rwa [le_div_iff₀ (by norm_num)]
      · rw [← add_div, div_le_iff₀ (by norm_num)]
        exact h)
    rw [jwtFails, Jose.isInFuture, hskew, nowSeconds_eq, Double.sub, Double.neg, Double.add, Fails,
      hsec, Double.lt]
    rw [le_div_iff₀ (by norm_num)] at hle
    constructor
    · intro hlt
      obtain ⟨-, hnot⟩ := Bool.and_eq_true_iff.mp hlt
      rw [Bool.not_eq_true', Bool.eq_false_iff, Ne, hle] at hnot
      exact not_le.mp hnot
    · intro hlt
      refine Bool.and_eq_true_iff.mpr ⟨Double.le_ofRat ?_, ?_⟩
      · rw [div_le_iff₀ (by norm_num)]
        exact hlt.le
      · rw [Bool.not_eq_true', Bool.eq_false_iff, Ne, hle]
        exact not_le.mpr hlt

/-! ## On dates -/

/-- A bound whose parts are rounded stays on its side of an instant, if the parts are what they
were, or the bound is not next to the instant. -/
theorem rounded_cases {Z R : ℚ} {n : ℤ}
    (h : (R = Z ∧ ∃ k : ℤ, Z = k) ∨ |R - Z| ≤ 5 / 2 ∧ (Z ≤ n - 3 ∨ (n : ℚ) + 4 ≤ Z)) :
    Z ≤ n ∧ R ≤ n ∨ (n : ℚ) + 1 ≤ Z ∧ (n : ℚ) + 1 ≤ R := by
  rcases h with ⟨rfl, k, rfl⟩ | ⟨hR, hfar⟩
  · rcases le_or_gt k n with hle | hlt
    · exact .inl (by exact_mod_cast And.intro hle hle)
    · exact .inr (by exact_mod_cast And.intro hlt hlt)
  · have hR' := abs_le.mp hR
    rcases hfar with hearly | hlate
    · exact .inl ⟨by linarith, by linarith [hR'.2]⟩
    · exact .inr ⟨by linarith, by linarith [hR'.1]⟩

theorem abs_round_sub_le_one {q : ℚ} (h : |q| ≤ 2 ^ 54) : |binary64.round q - q| ≤ 1 := by
  have := FloatFormat.abs_round_sub_le_ulp binary64_precision (x := q) (e := 1) (by decide)
    (by norm_num [binary64] at h ⊢; exact h)
  norm_num at this ⊢
  exact this

/-- The whole milliseconds of a date are within one and a half of the instant. -/
theorem abs_ms_sub_le {q : ℚ} (h : |q| ≤ maxTime) :
    |(trunc (binary64.round q) : ℚ) - q| ≤ 3 / 2 := by
  have hround := FloatFormat.abs_round_sub_le_ulp binary64_precision (x := q) (e := 0) (by decide)
    (by norm_num [binary64, maxTime] at h ⊢; linarith)
  norm_num at hround
  calc |(trunc (binary64.round q) : ℚ) - q|
      = |((trunc (binary64.round q) : ℚ) - binary64.round q) + (binary64.round q - q)| := by ring_nf
    _ ≤ |(trunc (binary64.round q) : ℚ) - binary64.round q| + |binary64.round q - q| :=
      abs_add_le _ _
    _ ≤ 1 + 1 / 2 := add_le_add (abs_trunc_sub_le _) hround
    _ = 3 / 2 := by norm_num

theorem trunc_round_of_whole {x : Finite} (hwhole : Whole x) (h : |x.value * 1000| ≤ maxTime) :
    (trunc (binary64.round (x.value * 1000)) : ℚ) = x.value * 1000 := by
  obtain ⟨n, hn⟩ := hwhole
  rw [hn] at h ⊢
  have hsmall : |n| ≤ 2 ^ 53 := (by exact_mod_cast h : |n| ≤ maxTime).trans (by decide)
  rw [round_intCast hsmall, trunc_intCast]

/-- What the date of a claim is shifted by, in milliseconds. -/
def shift (s : Finite) : Bound → ℚ
  | .upper => s.value * 1000
  | .lower => -(s.value * 1000)

theorem instant_eq (s : Finite) (c : Bound × Finite) :
    instant s c = c.2.value * 1000 + shift s c.1 := by
  obtain ⟨bound, x⟩ := c
  cases bound with
  | upper => rfl
  | lower => exact sub_eq_add_neg _ _

theorem abs_shift (s : Finite) (bound : Bound) : |shift s bound| = |s.value * 1000| := by
  cases bound with
  | upper => rfl
  | lower => exact abs_neg _

/-- A claim with a date, and what it is shifted by, after rounding. -/
def roundedInstant (s : Finite) (c : Bound × Finite) : ℚ :=
  trunc (binary64.round (c.2.value * 1000)) + binary64.round (shift s c.1)

theorem Exact.roundedInstant_eq {s : Finite} {c : Bound × Finite} (h : Exact s c)
    (hdate : HasDate c) :
    roundedInstant s c = instant s c ∧ ∃ k : ℤ, instant s c = k := by
  obtain ⟨hwhole, ⟨m, hm⟩, y, hy⟩ := h
  obtain ⟨n, hn⟩ := id hwhole
  have hT := trunc_round_of_whole hwhole hdate
  have hS : binary64.round (s.value * 1000) = s.value * 1000 := by
    rw [← hy]
    exact FloatFormat.round_eq_self binary64_precision y.representable
  obtain ⟨bound, x⟩ := c
  rw [roundedInstant, instant_eq, hT]
  cases bound with
  | upper => exact ⟨by rw [shift, hS], n + m, by rw [shift, hm, hn, Int.cast_add]⟩
  | lower => exact ⟨by rw [shift, FloatFormat.round_neg, hS],
      n - m, by rw [shift, hm, hn, Int.cast_sub, sub_eq_add_neg]⟩

theorem abs_roundedInstant_sub_le {s : Finite} {c : Bound × Finite} (hdate : HasDate c)
    (hskew : |s.value * 1000| ≤ 2 ^ 54) : |roundedInstant s c - instant s c| ≤ 5 / 2 := by
  have hT := abs_ms_sub_le hdate
  have hS := abs_round_sub_le_one (q := shift s c.1) (by rwa [abs_shift])
  calc |roundedInstant s c - instant s c|
      = |((trunc (binary64.round (c.2.value * 1000)) : ℚ) - c.2.value * 1000) +
          (binary64.round (shift s c.1) - shift s c.1)| := by
            rw [roundedInstant, instant_eq]; ring_nf
    _ ≤ |(trunc (binary64.round (c.2.value * 1000)) : ℚ) - c.2.value * 1000| +
          |binary64.round (shift s c.1) - shift s c.1| := abs_add_le _ _
    _ ≤ 3 / 2 + 1 := add_le_add hT hS
    _ = 5 / 2 := by norm_num

/-- The rounded bound of a claim that is clear of `now` is on the same side of `now`. -/
theorem roundedInstant_now {s : Finite} {c : Bound × Finite} (h : w.ClearOf s c) (hdate : HasDate c)
    (hskew : |s.value * 1000| ≤ 2 ^ 54) :
    instant s c ≤ w.now.ms ∧ roundedInstant s c ≤ w.now.ms ∨
      (w.now.ms : ℚ) + 1 ≤ instant s c ∧ (w.now.ms : ℚ) + 1 ≤ roundedInstant s c := by
  refine rounded_cases ?_
  rcases h with hexact | ⟨hfar, -⟩
  · exact .inl (hexact.roundedInstant_eq hdate)
  · refine .inr ⟨abs_roundedInstant_sub_le hdate hskew, ?_⟩
    rcases le_abs.mp hfar with hlate | hearly
    · exact .inr (by linarith)
    · exact .inl (by linarith)

theorem abs_ms_le {c : Bound × Finite} (hdate : HasDate c) :
    |(trunc (binary64.round (c.2.value * 1000)) : ℚ)| ≤ maxTime := by
  exact_mod_cast abs_trunc_le (abs_round_le_maxTime hdate)

/-- The rounded bound of an upper claim is a date where the bound is one, unless it is after the
dates. -/
theorem roundedInstant_upper {s x : Finite} (h : w.ClearOf s (.upper, x))
    (hdate : HasDate (.upper, x)) (hskew : |s.value * 1000| ≤ 2 ^ 54) :
    instant s (.upper, x) < -maxTime ∧ roundedInstant s (.upper, x) ≤ -(maxTime : ℚ) - 1 ∨
      -(maxTime : ℚ) ≤ instant s (.upper, x) ∧ -(maxTime : ℚ) ≤ roundedInstant s (.upper, x) := by
  have hsides : (roundedInstant s (.upper, x) = instant s (.upper, x) ∧
      ∃ k : ℤ, instant s (.upper, x) = k) ∨
      4 ≤ |instant s (.upper, x) - endOfDates .upper| →
      instant s (.upper, x) < -maxTime ∧ roundedInstant s (.upper, x) ≤ -(maxTime : ℚ) - 1 ∨
        -(maxTime : ℚ) ≤ instant s (.upper, x) ∧ -(maxTime : ℚ) ≤ roundedInstant s (.upper, x) := by
    intro hfar
    rw [endOfDates] at hfar
    push_cast at hfar
    have hcases := rounded_cases (n := -maxTime - 1) (hfar.imp_right fun hfar =>
      ⟨abs_roundedInstant_sub_le hdate hskew, (le_abs.mp hfar).symm.imp
        (fun h => by push_cast; linarith) fun h => by push_cast; linarith⟩)
    push_cast at hcases
    rcases hcases with ⟨hZ, hR⟩ | ⟨hZ, hR⟩
    · exact .inl ⟨by linarith, hR⟩
    · exact .inr ⟨by linarith, by linarith⟩
  rcases h with hexact | ⟨-, hpos | hfar⟩
  · exact hsides (.inl (hexact.roundedInstant_eq hdate))
  · -- a skew that is not negative moves the bound away from the first date
    have hX := (abs_le.mp hdate).1
    have hT := (abs_le.mp (abs_ms_le hdate)).1
    have hS : 0 ≤ binary64.round (s.value * 1000) := by
      exact_mod_cast intCast_le_round (n := 0) (by norm_num) (by push_cast; linarith)
    exact .inr ⟨by rw [instant]; linarith, by rw [roundedInstant, shift]; linarith⟩
  · exact hsides (.inr hfar)

/-- The rounded bound of a lower claim is a date where the bound is one, unless it is before the
dates. -/
theorem roundedInstant_lower {s x : Finite} (h : w.ClearOf s (.lower, x))
    (hdate : HasDate (.lower, x)) (hskew : |s.value * 1000| ≤ 2 ^ 54) :
    instant s (.lower, x) ≤ maxTime ∧ roundedInstant s (.lower, x) ≤ maxTime ∨
      (maxTime : ℚ) + 1 ≤ instant s (.lower, x) ∧
      (maxTime : ℚ) + 1 ≤ roundedInstant s (.lower, x) := by
  rcases h with hexact | ⟨-, hpos | hfar⟩
  · exact rounded_cases (.inl (hexact.roundedInstant_eq hdate))
  · have hX := (abs_le.mp hdate).2
    have hT := (abs_le.mp (abs_ms_le hdate)).2
    have hS : 0 ≤ binary64.round (s.value * 1000) := by
      exact_mod_cast intCast_le_round (n := 0) (by norm_num) (by push_cast; linarith)
    exact .inl ⟨by rw [instant]; linarith,
      by rw [roundedInstant, shift, FloatFormat.round_neg]; linarith⟩
  · refine rounded_cases (.inr ⟨abs_roundedInstant_sub_le hdate hskew, ?_⟩)
    exact (le_abs.mp hfar).symm.imp (fun h => by rw [endOfDates] at h; linarith) fun h => by
      rw [endOfDates] at h; linarith

theorem skewMs_eq {s : Finite} (hs : w.skewSeconds = .finite s) :
    w.cwtOptions.skewMs = Double.ofRat (s.value * 1000) := by
  simp [VerifyCwtClaimsOptions.skewMs, cwtOptions, hs, thousand, Double.mul]

/-- The date that is compared with `now`. -/
def shiftedDate (s : Finite) (c : Bound × Finite) : Date :=
  timeClip ((secondsToDate (.finite c.2)).getTime.add (Double.ofRat (shift s c.1)))

theorem cwtFails_eq {s : Finite} {c : Bound × Finite} (hs : w.skewSeconds = .finite s) :
    w.cwtFails c = match c.1 with
      | .upper => (shiftedDate s c).le (some w.now)
      | .lower => Date.lt (some w.now) (shiftedDate s c) := by
  obtain ⟨bound, x⟩ := c
  cases bound with
  | upper =>
    rw [cwtFails, isInPast, skewMs_eq hs]
    rfl
  | lower =>
    rw [cwtFails, isInFuture, skewMs_eq hs, Double.sub, Double.neg_ofRat]
    rfl

theorem abs_round_lt_overflow {q : ℚ} (h : |q| ≤ 2 ^ 54) : |binary64.round q| < overflow := by
  have hround := abs_le.mp (abs_round_sub_le_one h)
  have hq := abs_le.mp h
  refine lt_of_le_of_lt (b := 2 ^ 55) (abs_le.mpr ⟨?_, ?_⟩) (lt_overflow (by decide))
  · norm_num at hq ⊢
    linarith [hround.1]
  · norm_num at hq ⊢
    linarith [hround.2]

theorem shiftedDate_eq {s : Finite} {c : Bound × Finite} (hdate : HasDate c)
    (hskew : |s.value * 1000| ≤ 2 ^ 54) :
    shiftedDate s c = timeClip (Double.ofRat (roundedInstant s c)) := by
  obtain ⟨y, hy, hyv⟩ :=
    Double.ofRat_eq_finite (abs_round_lt_overflow (q := shift s c.1) (by rwa [abs_shift]))
  rw [shiftedDate, secondsToDate_eq_some hdate, hy, Date.getTime, Double.add, roundedInstant, hyv]
  rfl

/-- A number past the end of the dates has no date. -/
theorem timeClip_eq_none {q : ℚ} (h : (maxTime : ℚ) + 1 ≤ |q|) :
    timeClip (Double.ofRat q) = none := by
  refine timeClip_ofRat_eq_none ?_
  rcases le_abs.mp h with hpos | hneg
  · have hround := intCast_le_round (q := q) (n := maxTime + 1) (by decide)
      (by push_cast; exact hpos)
    push_cast at hround
    exact lt_abs.mpr (.inl (by linarith))
  · have hround := round_le_intCast (q := q) (n := -(maxTime + 1)) (by decide)
      (by push_cast; linarith)
    push_cast at hround
    exact lt_abs.mpr (.inr (by linarith))

/-- A shift of more than twice the range of dates shifts every date out of it. -/
theorem shiftedDate_of_large {s : Finite} {c : Bound × Finite} (hdate : HasDate c)
    (hskew : 2 ^ 54 < |s.value * 1000|) :
    shiftedDate s c = none := by
  rw [shiftedDate, secondsToDate_eq_some hdate, Date.getTime]
  by_cases hq : |binary64.round (shift s c.1)| < overflow
  · obtain ⟨y, hy, hyv⟩ := Double.ofRat_eq_finite hq
    have hlarge : 2 ^ 54 ≤ |y.value| := by
      rw [hyv]
      rw [← abs_shift s c.1] at hskew
      rcases lt_abs.mp hskew with hpos | hneg
      · exact le_abs.mpr (.inl (FloatFormat.le_round binary64_precision
          ⟨2, 53, by decide, by decide, by norm_num⟩ hpos.le))
      · refine le_abs.mpr (.inr ?_)
        rw [← FloatFormat.round_neg]
        exact FloatFormat.le_round binary64_precision
          ⟨2, 53, by decide, by decide, by norm_num⟩ hneg.le
    rw [hy, Double.add]
    refine timeClip_eq_none ?_
    have hT := abs_ms_le hdate
    have htri := abs_sub_abs_le_abs_add y.value (trunc (binary64.round (c.2.value * 1000)) : ℚ)
    rw [add_comm] at htri
    refine le_trans ?_ htri
    norm_num [maxTime] at hT hlarge ⊢
    linarith
  · rw [Double.ofRat_eq_infinite hq]
    rfl

/-- A check on dates finds a claim that fails if it has a date and its bound has one. -/
theorem cwtFails_iff {s : Finite} {c : Bound × Finite} (hs : w.skewSeconds = .finite s)
    (h : w.ClearOf s c) :
    w.cwtFails c = true ↔ w.Fails s c ∧ HasDate c ∧ InRange s c := by
  have hnow := abs_le.mp (by exact_mod_cast w.now.inRange : |(w.now.ms : ℚ)| ≤ (maxTime : ℚ))
  have hnone : shiftedDate s c = none → w.cwtFails c = false := by
    intro hnone
    rw [cwtFails_eq hs, hnone]
    obtain ⟨bound, x⟩ := c
    cases bound with
    | upper => exact Date.none_le _
    | lower => exact Date.lt_none _
  by_cases hdate : HasDate c
  swap
  · -- without a date, the claim compares with nothing
    refine iff_of_false ?_ fun hall => hdate hall.2.1
    rw [hnone (by rw [shiftedDate, secondsToDate_eq_none (not_le.mp hdate)]; rfl)]
    exact Bool.false_ne_true
  rcases le_or_gt (|s.value * 1000|) (2 ^ 54) with hskew | hskew
  swap
  · -- no date is left after the shift
    refine iff_of_false ?_ fun hall => ?_
    · rw [hnone (shiftedDate_of_large hdate hskew)]
      exact Bool.false_ne_true
    · have hrange := abs_le.mp hall.2.2
      have hX := abs_le.mp hdate
      rw [← abs_shift s c.1] at hskew
      rw [instant_eq] at hrange
      norm_num [maxTime] at hrange hX hskew
      rcases lt_abs.mp hskew with hpos | hneg <;> linarith [hrange.1, hrange.2, hX.1, hX.2]
  -- rounding moves the bound neither over now nor over the end of the dates
  have hside := roundedInstant_now h hdate hskew
  rw [cwtFails_eq hs, shiftedDate_eq hdate hskew]
  obtain ⟨bound, x⟩ := c
  cases bound with
  | upper =>
    rcases hside with ⟨hZ, hR⟩ | ⟨hZ, hR⟩
    · rcases roundedInstant_upper h hdate hskew with ⟨hend, hend'⟩ | ⟨hend, hend'⟩
      · rw [timeClip_eq_none (le_abs.mpr (.inr (by linarith)))]
        exact iff_of_false (by simp) fun hall => absurd (abs_le.mp hall.2.2).1 (not_le.mpr hend)
      · exact iff_of_true (timeClip_le hend' hR) ⟨hZ, hdate, abs_le.mpr ⟨hend, hZ.trans hnow.2⟩⟩
    · refine iff_of_false ?_ fun hall => ?_
      · rw [timeClip_not_le hR]
        exact Bool.false_ne_true
      · exact absurd hall.1 (not_le.mpr (by linarith))
  | lower =>
    rcases hside with ⟨hZ, hR⟩ | ⟨hZ, hR⟩
    · refine iff_of_false ?_ fun hall => absurd hall.1 (not_lt.mpr hZ)
      rw [timeClip_not_lt hR]
      exact Bool.false_ne_true
    · rcases roundedInstant_lower h hdate hskew with ⟨hend, hend'⟩ | ⟨hend, hend'⟩
      · exact iff_of_true (timeClip_lt hR hend') ⟨by rw [Fails]; linarith, hdate,
          abs_le.mpr ⟨by linarith [hnow.1], hend⟩⟩
      · rw [timeClip_eq_none (le_abs.mpr (.inl hend'))]
        exact iff_of_false (by simp) fun hall => absurd (abs_le.mp hall.2.2).2
          (not_le.mpr (by linarith))

/-! ## Tokens -/

theorem cwt_rejects {t : TimeClaims} {claims : Claims} {s : Finite} (hcwt : t.InCwt claims)
    (hs : w.skewSeconds = .finite s) (hclear : w.Clear t) :
    verifyClaims claims w.cwtOptions ≠ .ok () ↔ w.Seen t := by
  have hseen : w.Seen t ↔ ∃ c ∈ w.checked t, w.Fails s c ∧ HasDate c ∧ InRange s c := by
    simp [Seen, hs]
  rw [Ne, cwt_accepts hcwt, hseen]
  push Not
  refine exists_congr fun c => and_congr_right fun hc => ?_
  rw [← cwtFails_iff hs (hclear s hs c hc), Bool.ne_false_iff]

theorem jwt_rejects {t : TimeClaims} {payload : Value} {s : Finite} (hjwt : t.InJwt payload)
    (hs : w.skewSeconds = .finite s) (hclear : w.Clear t) :
    Jose.verifyJwtClaims payload w.jwtOptions ≠ .ok () ↔ ¬ w.SkewOk ∨ w.Outside t := by
  have hout : w.Outside t ↔ ∃ c ∈ w.checked t, w.Fails s c := by simp [Outside, hs]
  rw [Ne, jwt_accepts hjwt, hout, not_and_or]
  push Not
  refine or_congr_right (exists_congr fun c => and_congr_right fun hc => ?_)
  rw [← jwtFails_iff hs (hclear s hs c hc), Bool.ne_false_iff]

/-- A skew that is not a finite number of at least zero: one implementation rejects it, the other
computes with it. -/
theorem skewOk_or_outside {t : TimeClaims} {claims : Claims} {payload : Value}
    (hjwt : t.InJwt payload) (h : w.Enforced t claims payload) : w.SkewOk ∨ w.Outside t := by
  by_contra hneither
  obtain ⟨hskew, hinside⟩ := not_or.mp hneither
  have hreject : Jose.verifyJwtClaims payload w.jwtOptions ≠ .ok () :=
    fun hok => hskew ((jwt_accepts hjwt).mp hok).1
  exact hinside (h.1.mp (h.2.mp hreject))

/-! ## Examples -/

/-- A window with a skew of a whole number of seconds, and the default checks. -/
def windowAt (now : TimeValue) (skew : ℤ) (h : |skew| ≤ 2 ^ 53) : Window where
  now := now
  skewSeconds := .finite (.ofInt skew h)

/-- The epoch, with the default skew. -/
def epoch : Window := windowAt ⟨0, by decide⟩ 30 abs_thirty_le

/-- A token that expires after a whole number of seconds. -/
def expiring (exp : ℤ) (h : |exp| ≤ 2 ^ 53) : TimeClaims := { exp := some (.ofInt exp h) }

def cwtExpiring (exp : ℤ) (h : |exp| ≤ 2 ^ 53) : Claims :=
  OrderedMap.empty.set .expirationTime (.number (.ofInt exp h))

def jwtExpiring (exp : ℤ) : Value := .obj [("exp", num (.ofInt exp))]

end Window

end IdentityCommon.Cose
