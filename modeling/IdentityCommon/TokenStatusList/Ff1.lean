import IdentityCommon.Lib.Feistel
import IdentityCommon.TokenStatusList.ByteArray

/-!
# FF1 encryption

`ff1Encrypt`: FF1 of NIST SP 800-38G over an arbitrary block cipher callback, with the
CBC-MAC of the fixed prefix computed once.

## Main definitions

- `cbcMac`, `cipher`, `xor`, `toBytes`, `fromBytes` — the byte level
- `roundValue` — the number a round adds to the left half
- `ff1Encrypt` — the ten rounds

## Main results

- `ff1Encrypt_eq` — for a block cipher that returns 16 bytes, `ff1Encrypt` is a Feistel
  network
- `ff1Encrypt_permutes` — it permutes the numbers below `radix ^ length`

## Design notes

A `Uint8Array` is a list of bytes. The callback is a function, so encrypting one block
twice gives the same bytes.
-/

namespace IdentityCommon.TokenStatusList

/-- The callback that encrypts one block. -/
abbrev EncryptBlock := List UInt8 → List UInt8

structure Ff1Options where
  radix : ℕ
  tweak : List UInt8
  encryptBlock : EncryptBlock

def BLOCK_SIZE : ℕ := 16
def ROUNDS : ℕ := 10
def MIN_DOMAIN_SIZE : ℕ := 1000000

/-- `TypedArray.prototype.set`: the bytes of `source` written from `offset` on. -/
def setBytes (target source : List UInt8) (offset : ℕ) : List UInt8 :=
  target.take offset ++ source ++ target.drop (offset + source.length)

def cipher (encryptBlock : EncryptBlock) (block : List UInt8) :
    Except StatusListError (List UInt8) :=
  let output := encryptBlock block
  let returned := output.length
  if output.length ≠ BLOCK_SIZE then
    .error ⟨s!"encryptBlock returned {returned} bytes, expected {BLOCK_SIZE}"⟩
  else
    .ok output

def xor (left right : List UInt8) : List UInt8 :=
  left.zipIdx.map fun (byte, index) => byte ^^^ right.getD index 0

/-- The `length` lowest bytes of a number, highest byte first. -/
def toBytes (value : ℕ) : ℕ → List UInt8
  | 0 => []
  | length + 1 => toBytes (value / 256) length ++ [UInt8.ofNat (value % 256)]

def fromBytes (bytes : List UInt8) : ℕ :=
  bytes.foldl (fun value byte => value * 256 + byte.toNat) 0

/-- Continues a CBC-MAC over `blocks` blocks of `input`. -/
def cbcMac (encryptBlock : EncryptBlock) (state input : List UInt8) :
    ℕ → Except StatusListError (List UInt8)
  | 0 => .ok state
  | blocks + 1 => do
    let y ← cipher encryptBlock (xor state (input.take BLOCK_SIZE))
    cbcMac encryptBlock y (input.drop BLOCK_SIZE) blocks

/-- The number of iterations of a loop over blocks of `n` bytes. -/
def blocksOf (n : ℕ) : ℕ := (n + BLOCK_SIZE - 1) / BLOCK_SIZE

/-- `%` of the source language, which takes the sign of the left operand. -/
def padding (t byteLength : ℕ) : ℕ :=
  ((Int.tmod (Int.tmod (-(t : ℤ) - byteLength - 1) BLOCK_SIZE + BLOCK_SIZE) BLOCK_SIZE)).toNat

/-- The values `ff1Encrypt` computes before the rounds. -/
structure Ff1Setup where
  u : ℕ
  v : ℕ
  radixU : ℕ
  radixV : ℕ
  byteLength : ℕ
  outputLength : ℕ
  /-- The padded tweak after the block `P`. -/
  tweakPrefix : List UInt8
  fixedLength : ℕ

def ff1Setup (length : ℕ) (options : Ff1Options) : Ff1Setup :=
  let radix := options.radix
  let u := length / 2
  let v := length - u
  let radixU := radix ^ u
  let radixV := radix ^ v
  let byteLength := ((Nat.toDigits 2 (radixV - 1)).length + 7) / 8
  let outputLength := 4 * ((byteLength + 3) / 4) + 4
  let t := options.tweak.length
  let p := List.replicate BLOCK_SIZE 0
  let p := setBytes p [1, 2, 1] 0
  let p := setBytes p (toBytes radix 3) 3
  let p := setBytes p [10, UInt8.ofNat (u % 256)] 6
  let p := setBytes p (toBytes length 4) 8
  let p := setBytes p (toBytes t 4) 12
  let tweakPrefix := List.replicate (BLOCK_SIZE + t + padding t byteLength) 0
  let tweakPrefix := setBytes tweakPrefix p 0
  let tweakPrefix := setBytes tweakPrefix options.tweak BLOCK_SIZE
  { u, v, radixU, radixV, byteLength, outputLength, tweakPrefix
    fixedLength := tweakPrefix.length - tweakPrefix.length % BLOCK_SIZE }

/-- The bytes of the last blocks in a round. Every round overwrites the round number and the bytes
of the right half, so the array of the round before does not matter. -/
def roundInput (s : Ff1Setup) (round b : ℕ) : List UInt8 :=
  let roundOffset := s.tweakPrefix.length - s.fixedLength
  let rest := List.replicate (roundOffset + 1 + s.byteLength) 0
  let rest := setBytes rest (s.tweakPrefix.drop s.fixedLength) 0
  let rest := setBytes rest [UInt8.ofNat round] roundOffset
  setBytes rest (toBytes b s.byteLength) (roundOffset + 1)

/-- The bytes `S`: `R` and the encryptions of `R` xor a block number, from `block` on. -/
def expand (encryptBlock : EncryptBlock) (r : List UInt8) :
    ℕ → ℕ → List UInt8 → Except StatusListError (List UInt8)
  | _, 0, s => .ok s
  | block, n + 1, s => do
    let output ← cipher encryptBlock (xor r (toBytes block BLOCK_SIZE))
    expand encryptBlock r (block + 1) n (setBytes s output (block * BLOCK_SIZE))

/-- The number `y` of a round. -/
def roundValue (s : Ff1Setup) (encryptBlock : EncryptBlock) (fixedMac : List UInt8)
    (round b : ℕ) : Except StatusListError ℕ := do
  let rest := roundInput s round b
  let r ← cbcMac encryptBlock fixedMac rest (blocksOf rest.length)
  let blocks := blocksOf s.outputLength
  let bytes ← expand encryptBlock r 1 (blocks - 1)
    (setBytes (List.replicate (blocks * BLOCK_SIZE) 0) r 0)
  return fromBytes (bytes.take s.outputLength)

/-- The modulus of a round. -/
def modulus (s : Ff1Setup) (round : ℕ) : ℕ := if round % 2 = 0 then s.radixU else s.radixV

/-- `n` rounds from round `round` on, with the halves `a` and `b`. -/
def ff1Rounds (s : Ff1Setup) (encryptBlock : EncryptBlock) (fixedMac : List UInt8) :
    ℕ → ℕ → ℕ × ℕ → Except StatusListError (ℕ × ℕ)
  | _, 0, halves => .ok halves
  | round, n + 1, (a, b) => do
    let y ← roundValue s encryptBlock fixedMac round b
    ff1Rounds s encryptBlock fixedMac (round + 1) n (b, (a + y) % modulus s round)

def ff1Encrypt (value length : ℕ) (options : Ff1Options) : Except StatusListError ℕ := do
  let radix := options.radix
  if radix < 2 ∨ radix > 2 ^ 16 then
    throw ⟨"FF1 radix must be between 2 and 2^16"⟩
  if length < 2 ∨ length ≥ 2 ^ 32 ∨ radix ^ length < MIN_DOMAIN_SIZE then
    throw ⟨"FF1 needs at least 2 numerals and a domain of at least 1,000,000 values"⟩
  if value ≥ radix ^ length then
    throw ⟨"FF1 input is outside the domain"⟩
  let s := ff1Setup length options
  let fixedMac ← cbcMac options.encryptBlock (List.replicate BLOCK_SIZE 0)
    (s.tweakPrefix.take s.fixedLength) (blocksOf s.fixedLength)
  let (a, b) ← ff1Rounds s options.encryptBlock fixedMac 0 ROUNDS
    (value / s.radixV, value % s.radixV)
  return a * s.radixV + b

/-! ## A Feistel network -/

section

variable {encryptBlock : EncryptBlock} (h16 : ∀ block, (encryptBlock block).length = BLOCK_SIZE)

include h16

theorem cipher_ok (block : List UInt8) : cipher encryptBlock block = .ok (encryptBlock block) := by
  rw [cipher, if_neg (not_not.mpr (h16 block))]

theorem cbcMac_ok (blocks : ℕ) :
    ∀ state input, ∃ y, cbcMac encryptBlock state input blocks = .ok y := by
  induction blocks with
  | zero => exact fun state _ => ⟨state, rfl⟩
  | succ blocks ih =>
    intro state input
    rw [cbcMac, cipher_ok h16]
    exact ih _ _

theorem expand_ok (r : List UInt8) (n : ℕ) :
    ∀ block s, ∃ bytes, expand encryptBlock r block n s = .ok bytes := by
  induction n with
  | zero => exact fun _ s => ⟨s, rfl⟩
  | succ n ih =>
    intro block s
    rw [expand, cipher_ok h16]
    exact ih _ _

theorem roundValue_ok (s : Ff1Setup) (fixedMac : List UInt8) (round b : ℕ) :
    ∃ y, roundValue s encryptBlock fixedMac round b = .ok y := by
  obtain ⟨r, hr⟩ := cbcMac_ok h16 (blocksOf (roundInput s round b).length) fixedMac
    (roundInput s round b)
  obtain ⟨bytes, hbytes⟩ := expand_ok h16 r (blocksOf s.outputLength - 1) 1
    (setBytes (List.replicate (blocksOf s.outputLength * BLOCK_SIZE) 0) r 0)
  refine ⟨fromBytes (bytes.take s.outputLength), ?_⟩
  simp only [roundValue, hr, bind, Except.bind, hbytes]
  rfl

/-- The rounds are those of a Feistel network, whatever the round values are. -/
theorem ff1Rounds_ok (s : Ff1Setup) (fixedMac : List UInt8) :
    ∃ F, ∀ n round halves, ff1Rounds s encryptBlock fixedMac round n halves =
      .ok (Feistel.rounds (modulus s) F round n halves) := by
  choose F hF using roundValue_ok h16 s fixedMac
  refine ⟨F, fun n => ?_⟩
  induction n with
  | zero => exact fun _ _ => rfl
  | succ n ih =>
    rintro round ⟨a, b⟩
    rw [ff1Rounds, hF]
    exact ih _ _

end

theorem ff1Setup_radixV (length : ℕ) (options : Ff1Options) :
    (ff1Setup length options).radixV = options.radix ^ (length - length / 2) := rfl

theorem ff1Setup_radixU (length : ℕ) (options : Ff1Options) :
    (ff1Setup length options).radixU = options.radix ^ (length / 2) := rfl

theorem radixU_mul_radixV (length : ℕ) (options : Ff1Options) :
    (ff1Setup length options).radixU * (ff1Setup length options).radixV =
      options.radix ^ length := by
  rw [ff1Setup_radixU, ff1Setup_radixV, ← pow_add]
  congr 1
  omega

theorem modulus_add_two (s : Ff1Setup) (i : ℕ) : modulus s (i + 2) = modulus s i := by
  simp [modulus]

/-- The conditions `ff1Encrypt` checks of its parameters. -/
structure Ff1Domain (length : ℕ) (options : Ff1Options) : Prop where
  two_le_radix : 2 ≤ options.radix
  radix_le : options.radix ≤ 2 ^ 16
  two_le : 2 ≤ length
  lt : length < 2 ^ 32
  domain : MIN_DOMAIN_SIZE ≤ options.radix ^ length

/-- The number as a pair of halves. -/
def halves (s : Ff1Setup) (value : ℕ) : ℕ × ℕ := (value / s.radixV, value % s.radixV)

theorem ff1Encrypt_eq {length : ℕ} {options : Ff1Options} (hd : Ff1Domain length options)
    (h16 : ∀ block, (options.encryptBlock block).length = BLOCK_SIZE) :
    ∃ F, ∀ value < options.radix ^ length, ff1Encrypt value length options =
      let s := ff1Setup length options
      let (a, b) := Feistel.rounds (modulus s) F 0 ROUNDS (halves s value)
      .ok (a * s.radixV + b) := by
  let s := ff1Setup length options
  obtain ⟨fixedMac, hmac⟩ := cbcMac_ok h16 (blocksOf s.fixedLength) (List.replicate BLOCK_SIZE 0)
    (s.tweakPrefix.take s.fixedLength)
  obtain ⟨F, hF⟩ := ff1Rounds_ok h16 s fixedMac
  refine ⟨F, fun value hv => ?_⟩
  have h1 := hd.two_le_radix
  have h2 := hd.radix_le
  have h3 := hd.two_le
  have h4 := hd.lt
  have h5 := hd.domain
  rw [ff1Encrypt]
  simp only [if_neg (show ¬(options.radix < 2 ∨ options.radix > 2 ^ 16) by omega),
    if_neg (show ¬(length < 2 ∨ length ≥ 2 ^ 32 ∨ options.radix ^ length < MIN_DOMAIN_SIZE) by
      omega), if_neg (show ¬value ≥ options.radix ^ length by omega)]
  change (cbcMac _ _ _ _).bind _ = _
  rw [hmac]
  change (ff1Rounds s _ _ _ _ _).bind _ = _
  rw [hF]
  rfl

theorem halves_inRange {length : ℕ} {options : Ff1Options} (hd : Ff1Domain length options)
    {value : ℕ} (hv : value < options.radix ^ length) :
    Feistel.InRange (modulus (ff1Setup length options)) 0
      (halves (ff1Setup length options) value) := by
  have hr := hd.two_le_radix
  have hpos : 0 < (ff1Setup length options).radixV := by
    rw [ff1Setup_radixV]
    exact Nat.pow_pos (by omega)
  refine ⟨?_, Nat.mod_lt _ hpos⟩
  change value / _ < (ff1Setup length options).radixU
  rw [Nat.div_lt_iff_lt_mul hpos, radixU_mul_radixV]
  exact hv

theorem halves_injective (s : Ff1Setup) : Function.Injective (halves s) := by
  intro x y h
  obtain ⟨hdiv, hmod⟩ := Prod.mk.inj h
  rw [← Nat.div_add_mod x s.radixV, hdiv, hmod, Nat.div_add_mod]

/-- FF1 permutes the numbers below `radix ^ length`: it maps them to numbers below it, no two to the
same. -/
theorem ff1Encrypt_permutes {length : ℕ} {options : Ff1Options} (hd : Ff1Domain length options)
    (h16 : ∀ block, (options.encryptBlock block).length = BLOCK_SIZE) :
    ∃ g : ℕ → ℕ, (∀ value < options.radix ^ length,
        ff1Encrypt value length options = .ok (g value) ∧ g value < options.radix ^ length) ∧
      Set.InjOn g (Set.Iio (options.radix ^ length)) := by
  obtain ⟨F, hF⟩ := ff1Encrypt_eq hd h16
  let s := ff1Setup length options
  let enc := fun value => Feistel.rounds (modulus s) F 0 ROUNDS (halves s value)
  have hout : ∀ value < options.radix ^ length,
      (enc value).1 < s.radixU ∧ (enc value).2 < s.radixV := fun value hv =>
    Feistel.rounds_inRange (modulus_add_two s) ROUNDS (halves_inRange hd hv)
  refine ⟨fun value => (enc value).1 * s.radixV + (enc value).2, fun value hv => ⟨hF value hv, ?_⟩,
    fun x hx y hy hxy => ?_⟩
  · obtain ⟨ha, hb⟩ := hout value hv
    calc (enc value).1 * s.radixV + (enc value).2
        < ((enc value).1 + 1) * s.radixV := by rw [Nat.succ_mul]; omega
      _ ≤ s.radixU * s.radixV := Nat.mul_le_mul_right _ ha
      _ = options.radix ^ length := radixU_mul_radixV length options
  · obtain ⟨-, hbx⟩ := hout x hx
    obtain ⟨-, hby⟩ := hout y hy
    have hpos := Nat.zero_lt_of_lt hbx
    have hxy' : (enc x).1 * s.radixV + (enc x).2 = (enc y).1 * s.radixV + (enc y).2 := hxy
    have ha : (enc x).1 = (enc y).1 := by
      have := congrArg (· / s.radixV) hxy'
      simpa [Nat.add_comm (_ * _), Nat.add_mul_div_right _ _ hpos, Nat.div_eq_of_lt hbx,
        Nat.div_eq_of_lt hby] using this
    have hb : (enc x).2 = (enc y).2 := by rw [ha] at hxy'; omega
    exact halves_injective s (Feistel.rounds_injOn (modulus_add_two s) ROUNDS 0
      (halves_inRange hd hx) (halves_inRange hd hy) (Prod.ext ha hb))

end IdentityCommon.TokenStatusList
