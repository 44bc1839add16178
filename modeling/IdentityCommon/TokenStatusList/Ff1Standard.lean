import IdentityCommon.Lib.Except
import IdentityCommon.Lib.NumeralString
import IdentityCommon.TokenStatusList.Ff1

/-!
# FF1 of the standard

`FF1.Encrypt` of NIST SP 800-38G over numeral strings, which computes the function `PRF` of `P || Q`
from its first block on in every round, and `ff1Encrypt` with the buffer that its rounds share.

## Main definitions

- `Standard.PRF`, `Standard.round`, `Standard.encrypt` — the algorithm of the standard
- `ff1EncryptReusing` — `ff1Encrypt`, whose rounds write to one buffer

## Main results

- `cbcMac_append` — the CBC-MAC of a prefix is continued
- `roundValue_eq` — the number of a round is the one of the standard
- `ff1Encrypt_eq_standard` — `ff1Encrypt` computes the number of the numeral string of the standard

## Design notes

The standard is about a bound on the lengths of the numeral string and the tweak; the bytes of a
number are its lowest. -/

namespace IdentityCommon.TokenStatusList

open IdentityCommon.Except NumeralString

/-! ## The standard -/

namespace Standard

/-- `[x]^s`: a number as `s` bytes. -/
def bytes (s x : ℕ) : List UInt8 := (str 256 s x).map UInt8.ofNat

/-- `NUM(X)` of bytes. -/
def numBytes (X : List UInt8) : ℕ := num 256 (X.map UInt8.toNat)

/-- `X ⊕ Y` of strings of the same length. -/
def xorBytes (X Y : List UInt8) : List UInt8 := List.zipWith (· ^^^ ·) X Y

/-- The blocks of 16 bytes of a string. -/
def blocks (X : List UInt8) : List (List UInt8) :=
  (List.range (X.length / 16)).map fun j => (X.drop (16 * j)).take 16

/-- The step of `PRF`, with the block cipher `ciph`. -/
def prfStep (ciph : List UInt8 → List UInt8) (Y X : List UInt8) : List UInt8 := ciph (xorBytes Y X)

def PRF (ciph : List UInt8 → List UInt8) (X : List UInt8) : List UInt8 :=
  (blocks X).foldl (prfStep ciph) (List.replicate 16 0)

/-- The bytes that represent the numerals of the second half. -/
noncomputable def b (radix v : ℕ) : ℕ := ⌈(v : ℝ) * Real.logb 2 radix⌉₊ ⌈/⌉ 8

noncomputable def d (radix v : ℕ) : ℕ := 4 * (b radix v ⌈/⌉ 4) + 4

/-- Step 5. -/
def P (radix u n t : ℕ) : List UInt8 :=
  bytes 1 1 ++ bytes 1 2 ++ bytes 1 1 ++ bytes 3 radix ++ bytes 1 10 ++ bytes 1 (u % 256) ++
  bytes 4 n ++ bytes 4 t

/-- Step 6.i. -/
def Q (T : List UInt8) (b i numB : ℕ) : List UInt8 :=
  T ++ List.replicate ((-(T.length : ℤ) - b - 1) % 16).toNat 0 ++ bytes 1 i ++ bytes b numB

/-- Step 6.iii. -/
def S (ciph : List UInt8 → List UInt8) (R : List UInt8) (d : ℕ) : List UInt8 :=
  (R ++ (List.range' 1 (d ⌈/⌉ 16 - 1)).flatMap fun j => ciph (xorBytes R (bytes 16 j))).take d

/-- Step 6.v. -/
def m (u v i : ℕ) : ℕ := if i % 2 = 0 then u else v

/-- Steps 6.i to 6.iv, for a string of `n` numerals. -/
noncomputable def y (ciph : List UInt8 → List UInt8) (radix n : ℕ) (T : List UInt8) (i : ℕ)
    (B : List ℕ) : ℕ :=
  let u := n / 2
  let v := n - u
  let R := PRF ciph (P radix u n T.length ++ Q T (b radix v) i (num radix B))
  numBytes (S ciph R (d radix v))

/-- Steps 6.vi to 6.ix. -/
noncomputable def round (ciph : List UInt8 → List UInt8) (radix n : ℕ) (T : List UInt8)
    (halves : List ℕ × List ℕ) (i : ℕ) : List ℕ × List ℕ :=
  let m := m (n / 2) (n - n / 2) i
  let c := (num radix halves.1 + y ciph radix n T i halves.2) % radix ^ m
  (halves.2, str radix m c)

/-- `FF1.Encrypt(K, T, X)`, where `ciph` is the block cipher with the key `K`. -/
noncomputable def encrypt (ciph : List UInt8 → List UInt8) (radix : ℕ) (T : List UInt8)
    (X : List ℕ) : List ℕ :=
  let n := X.length
  let halves := (List.range 10).foldl (round ciph radix n T) (X.take (n / 2), X.drop (n / 2))
  halves.1 ++ halves.2

end Standard

/-! ## The shared buffer -/

/-- The array `rest` before the rounds. -/
def restBuffer (s : Ff1Setup) : List UInt8 :=
  setBytes (List.replicate (s.tweakPrefix.length - s.fixedLength + 1 + s.byteLength) 0)
    (s.tweakPrefix.drop s.fixedLength) 0

/-- What a round writes to the array of the round before. -/
def patch (s : Ff1Setup) (round b : ℕ) (rest : List UInt8) : List UInt8 :=
  let roundOffset := s.tweakPrefix.length - s.fixedLength
  setBytes (setBytes rest [UInt8.ofNat round] roundOffset) (toBytes b s.byteLength)
    (roundOffset + 1)

/-- The number `y` of a round, from the array. -/
def restValue (s : Ff1Setup) (encryptBlock : EncryptBlock) (fixedMac rest : List UInt8) :
    Except StatusListError ℕ := do
  let r ← cbcMac encryptBlock fixedMac rest (blocksOf rest.length)
  let blocks := blocksOf s.outputLength
  let bytes ← expand encryptBlock r 1 (blocks - 1)
    (setBytes (List.replicate (blocks * BLOCK_SIZE) 0) r 0)
  return fromBytes (bytes.take s.outputLength)

/-- `n` rounds from round `round` on, with the array of the round before. -/
def ff1RoundsReusing (s : Ff1Setup) (encryptBlock : EncryptBlock) (fixedMac : List UInt8) :
    ℕ → ℕ → List UInt8 → ℕ × ℕ → Except StatusListError (ℕ × ℕ)
  | _, 0, _, halves => .ok halves
  | round, n + 1, rest, (a, b) => do
    let rest := patch s round b rest
    let y ← restValue s encryptBlock fixedMac rest
    ff1RoundsReusing s encryptBlock fixedMac (round + 1) n rest (b, (a + y) % modulus s round)

/-- `ff1Encrypt`, with the array that the rounds share. -/
def ff1EncryptReusing (value length : ℕ) (options : Ff1Options) : Except StatusListError ℕ := do
  let radix := options.radix
  if radix < 2 ∨ radix > 2 ^ 16 then
    throw ⟨"FF1 radix must be between 2 and 2^16"⟩
  if length < 2 ∨ length ≥ 2 ^ 32 ∨ radix ^ length < MIN_DOMAIN_SIZE then
    throw ⟨"FF1 needs at least 2 numerals and a domain of at least 1,000,000 values"⟩
  if value ≥ radix ^ length then
    throw ⟨"FF1 input is outside the domain"⟩
  let s := ff1Setup length options
  let fixedMac ← cbcMac options.encryptBlock (List.replicate BLOCK_SIZE 0)
    (s.tweakPrefix.take s.fixedLength) (blocksOf s.fixedLength)
  let (a, b) ← ff1RoundsReusing s options.encryptBlock fixedMac 0 ROUNDS (restBuffer s)
    (value / s.radixV, value % s.radixV)
  return a * s.radixV + b

/-! ## Bytes -/

theorem length_setBytes {target source : List UInt8} {offset : ℕ}
    (h : offset + source.length ≤ target.length) :
    (setBytes target source offset).length = target.length := by
  simp only [setBytes, List.length_append, List.length_take, List.length_drop]
  omega

theorem take_setBytes {target source : List UInt8} {offset : ℕ} (h : offset ≤ target.length) :
    (setBytes target source offset).take (offset + source.length) =
      target.take offset ++ source := by
  rw [setBytes, List.take_left']
  rw [List.length_append, List.length_take, Nat.min_eq_left h]

theorem toBytes_eq (x s : ℕ) : toBytes x s = Standard.bytes s x := by
  induction s generalizing x with
  | zero => rfl
  | succ s ih =>
    rw [toBytes, ih, Standard.bytes, Standard.bytes, str, List.map_append]
    rfl

@[simp] theorem length_bytes (s x : ℕ) : (Standard.bytes s x).length = s := by
  rw [Standard.bytes, List.length_map, length_str]

theorem fromBytes_eq (X : List UInt8) : fromBytes X = Standard.numBytes X := by
  rw [fromBytes, Standard.numBytes, num, List.foldl_map]

theorem xor_eq {X Y : List UInt8} (h : X.length = Y.length) : xor X Y = Standard.xorBytes X Y := by
  apply List.ext_getElem
  · simp [xor, Standard.xorBytes, h]
  · intro i hi hi'
    have hY : i < Y.length := by simpa [xor, h] using hi
    simp [xor, Standard.xorBytes, hY]

/-! ## The CBC-MAC -/

theorem blocks_of_lt {X : List UInt8} (h : X.length < 16) : Standard.blocks X = [] := by
  rw [Standard.blocks, Nat.div_eq_of_lt h]
  rfl

theorem blocks_of_le {X : List UInt8} (h : 16 ≤ X.length) :
    Standard.blocks X = X.take 16 :: Standard.blocks (X.drop 16) := by
  have hcount : X.length / 16 = (X.drop 16).length / 16 + 1 := by
    rw [List.length_drop]
    omega
  rw [Standard.blocks, hcount, List.range_succ_eq_map, List.map_cons, List.map_map, Standard.blocks]
  refine congrArg₂ List.cons rfl (List.map_congr_left fun j _ => ?_)
  rw [Function.comp_apply, List.drop_drop]
  congr 2
  omega

theorem blocks_append {X : List UInt8} {n : ℕ} (h : X.length = 16 * n) (Y : List UInt8) :
    Standard.blocks (X ++ Y) = Standard.blocks X ++ Standard.blocks Y := by
  induction n generalizing X with
  | zero =>
    obtain rfl := List.length_eq_zero_iff.mp h
    rfl
  | succ n ih =>
    have hX : 16 ≤ X.length := by omega
    have hdrop : (X.drop 16).length = 16 * n := by
      rw [List.length_drop]
      omega
    rw [blocks_of_le (by rw [List.length_append]; omega), blocks_of_le hX,
      List.take_append_of_le_length hX, List.drop_append_of_le_length hX, ih hdrop,
        List.cons_append]

section

variable {encryptBlock : EncryptBlock}

/-- A block cipher, that is applied to blocks only. -/
def IsBlockCipher (encryptBlock : EncryptBlock) : Prop :=
  ∀ block, block.length = 16 → (encryptBlock block).length = 16

variable (h16 : IsBlockCipher encryptBlock)

include h16

theorem length_prfStep {Y X : List UInt8} (hY : Y.length = 16) (hX : X.length = 16) :
    (Standard.prfStep encryptBlock Y X).length = 16 := by
  refine h16 _ ?_
  rw [Standard.xorBytes, List.length_zipWith, hY, hX, Nat.min_self]

theorem cipher_eq {block : List UInt8} (h : block.length = 16) :
    cipher encryptBlock block = .ok (encryptBlock block) := by
  have hlength : (encryptBlock block).length = BLOCK_SIZE := h16 block h
  rw [cipher, if_neg (not_not.mpr hlength)]

theorem cbcMac_eq (n : ℕ) : ∀ {state input : List UInt8}, state.length = 16 →
    input.length = 16 * n →
    cbcMac encryptBlock state input n =
      .ok ((Standard.blocks input).foldl (Standard.prfStep encryptBlock) state) ∧
      ((Standard.blocks input).foldl (Standard.prfStep encryptBlock) state).length = 16 := by
  induction n with
  | zero =>
    intro state input hstate hinput
    rw [blocks_of_lt (by omega)]
    exact ⟨rfl, hstate⟩
  | succ n ih =>
    intro state input hstate hinput
    have htake : (input.take 16).length = 16 := by
      rw [List.length_take]
      omega
    have hdrop : (input.drop 16).length = 16 * n := by
      rw [List.length_drop]
      omega
    have hxor : (Standard.xorBytes state (input.take 16)).length = 16 := by
      rw [Standard.xorBytes, List.length_zipWith, hstate, htake, Nat.min_self]
    rw [cbcMac, BLOCK_SIZE, xor_eq (hstate.trans htake.symm), cipher_eq h16 hxor,
      blocks_of_le (by omega), List.foldl_cons]
    exact ih (length_prfStep h16 hstate htake) hdrop

/-- The CBC-MAC of whole blocks is continued over the blocks after them. -/
theorem cbcMac_append {X : List UInt8} {m : ℕ} (hX : X.length = 16 * m) :
    ∃ mac, cbcMac encryptBlock (List.replicate BLOCK_SIZE 0) X m = .ok mac ∧
      ∀ {Y : List UInt8} {n : ℕ}, Y.length = 16 * n →
        cbcMac encryptBlock mac Y n = .ok (Standard.PRF encryptBlock (X ++ Y)) ∧
          (Standard.PRF encryptBlock (X ++ Y)).length = 16 := by
  obtain ⟨hmac, hlength⟩ := cbcMac_eq h16 m (List.length_replicate (a := (0 : UInt8))) hX
  refine ⟨_, hmac, fun {Y n} hY => ?_⟩
  rw [Standard.PRF, blocks_append hX, List.foldl_append]
  exact cbcMac_eq h16 n hlength hY

end

/-! ## The fixed prefix -/

theorem padding_eq (t byteLength : ℕ) :
    padding t byteLength = ((-(t : ℤ) - byteLength - 1) % 16).toNat := by
  have hneg : Int.tmod (-(t : ℤ) - byteLength - 1) 16 = -(((t : ℤ) + byteLength + 1) % 16) := by
    have hsum : -(t : ℤ) - byteLength - 1 = -((t : ℤ) + byteLength + 1) := by omega
    rw [hsum, Int.neg_tmod, Int.tmod_eq_emod_of_nonneg (by omega)]
  change (Int.tmod (Int.tmod (-(t : ℤ) - byteLength - 1) 16 + 16) 16).toNat = _
  rw [hneg, Int.tmod_eq_emod_of_nonneg (by omega)]
  omega

theorem padding_mod (t byteLength : ℕ) : (t + padding t byteLength + 1 + byteLength) % 16 = 0 := by
  rw [padding_eq]
  omega

/-- The array `p`. -/
theorem setBytes_P (radix u n t : ℕ) :
    setBytes (setBytes (setBytes (setBytes (setBytes (List.replicate BLOCK_SIZE 0) [1, 2, 1] 0)
      (toBytes radix 3) 3)
      [10, UInt8.ofNat (u % 256)] 6) (toBytes n 4) 8) (toBytes t 4) 12 =
        Standard.P radix u n t := by
  have hu : Standard.bytes 1 (u % 256) = [UInt8.ofNat (u % 256)] := by
    simp [Standard.bytes, str]
  rw [Standard.P, ← toBytes_eq radix 3, ← toBytes_eq n 4, ← toBytes_eq t 4, hu]
  rfl

theorem length_P (radix u n t : ℕ) : (Standard.P radix u n t).length = 16 := by simp [Standard.P]

theorem setBytes_append {a b c source : List UInt8} {offset : ℕ} (ha : a.length = offset)
    (hb : b.length = source.length) :
    setBytes (a ++ b ++ c) source offset = a ++ source ++ c := by
  have hdrop : (a ++ b ++ c).drop (offset + source.length) = c := by
    rw [← ha, ← hb, ← List.length_append, List.drop_left]
  rw [setBytes, hdrop, ← ha, List.append_assoc a b c, List.take_left]

section

variable (length : ℕ) (options : Ff1Options)

theorem tweakPrefix_eq : (ff1Setup length options).tweakPrefix =
    Standard.P options.radix (length / 2) length options.tweak.length ++ options.tweak ++
      List.replicate (padding options.tweak.length (ff1Setup length options).byteLength) 0 := by
  have hP := length_P options.radix (length / 2) length options.tweak.length
  rw [ff1Setup]
  dsimp only
  rw [setBytes_P, BLOCK_SIZE, List.replicate_add, List.replicate_add]
  have hfirst := setBytes_append (a := []) (c := List.replicate options.tweak.length 0 ++
    List.replicate (padding options.tweak.length (ff1Setup length options).byteLength) 0) rfl
    ((List.length_replicate (n := 16) (a := (0 : UInt8))).trans hP.symm)
  rw [List.nil_append, List.nil_append, ← List.append_assoc] at hfirst
  exact (congrArg (setBytes · options.tweak 16) hfirst).trans
    ((congrArg (setBytes · options.tweak 16) (List.append_assoc _ _ _).symm).trans
      (setBytes_append hP List.length_replicate))

theorem length_tweakPrefix : (ff1Setup length options).tweakPrefix.length =
    16 + options.tweak.length + padding options.tweak.length
      (ff1Setup length options).byteLength := by
  rw [tweakPrefix_eq, List.length_append, List.length_append, length_P, List.length_replicate]

theorem fixedLength_eq : (ff1Setup length options).fixedLength =
    16 * ((ff1Setup length options).tweakPrefix.length / 16) := by
  have h : (ff1Setup length options).fixedLength = (ff1Setup length options).tweakPrefix.length -
      (ff1Setup length options).tweakPrefix.length % BLOCK_SIZE := rfl
  rw [h, BLOCK_SIZE]
  omega

end

/-! ## The array of the rounds -/

section

variable {s : Ff1Setup} {rest : List UInt8}

/-- An array that starts with the bytes after the fixed blocks, and has room for the round and a
half. -/
structure IsRest (s : Ff1Setup) (rest : List UInt8) : Prop where
  length : rest.length = (s.tweakPrefix.drop s.fixedLength).length + 1 + s.byteLength
  take : rest.take (s.tweakPrefix.drop s.fixedLength).length = s.tweakPrefix.drop s.fixedLength

theorem patch_eq (h : IsRest s rest) (round b : ℕ) : patch s round b rest =
    s.tweakPrefix.drop s.fixedLength ++ [UInt8.ofNat round] ++ toBytes b s.byteLength := by
  have hlength := h.length
  have htake := h.take
  have hoffset : (s.tweakPrefix.drop s.fixedLength).length = s.tweakPrefix.length - s.fixedLength :=
    List.length_drop
  change setBytes (setBytes rest _ (s.tweakPrefix.length - s.fixedLength)) _
    (s.tweakPrefix.length - s.fixedLength + 1) = _
  rw [← hoffset]
  generalize s.tweakPrefix.drop s.fixedLength = tail at hlength htake
  obtain ⟨x, y, hxy, hx, hy⟩ : ∃ x y : List UInt8, rest = tail ++ x ++ y ∧ x.length = 1 ∧
      y.length = s.byteLength := by
    refine ⟨(rest.drop tail.length).take 1, (rest.drop tail.length).drop 1, ?_, ?_, ?_⟩
    · rw [List.append_assoc, List.take_append_drop]
      nth_rewrite 1 [← List.take_append_drop tail.length rest]
      rw [htake]
    · rw [List.length_take, List.length_drop, hlength]
      omega
    · rw [List.length_drop, List.length_drop, hlength]
      omega
  have hround : setBytes rest [UInt8.ofNat round] tail.length = tail ++
      [UInt8.ofNat round] ++ y := by
    rw [hxy, setBytes_append rfl hx]
  have hb : y.length = (toBytes b s.byteLength).length := by rw [toBytes_eq, length_bytes, hy]
  have hnext : (tail ++ [UInt8.ofNat round]).length = tail.length + 1 := by simp
  have hlast := setBytes_append (c := []) hnext hb
  rw [List.append_nil, List.append_nil] at hlast
  rw [hround, hlast]

theorem isRest_append (round b : ℕ) :
    IsRest s (s.tweakPrefix.drop s.fixedLength ++ [UInt8.ofNat round] ++
      toBytes b s.byteLength) := by
  constructor
  · rw [List.length_append, List.length_append, toBytes_eq, length_bytes]
    rfl
  · rw [List.append_assoc, List.take_left]

theorem isRest_restBuffer (s : Ff1Setup) : IsRest s (restBuffer s) := by
  have hbuffer : restBuffer s = s.tweakPrefix.drop s.fixedLength ++
      List.replicate (1 + s.byteLength) 0 := by
    have hnil : ([] : List UInt8).length = 0 := rfl
    have happend := setBytes_append (c := List.replicate (1 + s.byteLength) 0) hnil
      (List.length_replicate (n := (s.tweakPrefix.drop s.fixedLength).length) (a := (0 : UInt8)))
    rw [List.nil_append, List.nil_append, ← List.replicate_add] at happend
    rw [restBuffer, ← List.length_drop, Nat.add_assoc, happend]
  constructor
  · rw [hbuffer, List.length_append, List.length_replicate, Nat.add_assoc]
  · rw [hbuffer, List.take_left]

theorem roundInput_eq (s : Ff1Setup) (round b : ℕ) : roundInput s round b =
    s.tweakPrefix.drop s.fixedLength ++ [UInt8.ofNat round] ++ toBytes b s.byteLength :=
  patch_eq (isRest_restBuffer s) round b

/-- The rounds do not depend on what earlier rounds wrote to the array. -/
theorem ff1RoundsReusing_eq (encryptBlock : EncryptBlock) (fixedMac : List UInt8) (n : ℕ) :
    ∀ {round : ℕ} {rest : List UInt8} {halves : ℕ × ℕ}, IsRest s rest →
      ff1RoundsReusing s encryptBlock fixedMac round n rest halves =
        ff1Rounds s encryptBlock fixedMac round n halves := by
  induction n with
  | zero => exact fun _ => rfl
  | succ n ih =>
    rintro round rest ⟨a, b⟩ hrest
    have hpatch : patch s round b rest = roundInput s round b := by
      rw [patch_eq hrest, roundInput_eq]
    have hnext : IsRest s (patch s round b rest) := patch_eq hrest round b ▸ isRest_append round b
    rw [ff1RoundsReusing, ff1Rounds]
    simp only [ih hnext]
    rw [hpatch]
    rfl

end

/-! ## The rounds -/

section

variable {length : ℕ} {options : Ff1Options}

theorem byteLength_eq (hradix : 2 ≤ options.radix) (hlength : 2 ≤ length) :
    (ff1Setup length options).byteLength = Standard.b options.radix (length - length / 2) := by
  have hpow : 1 < options.radix ^ (length - length / 2) := Nat.one_lt_pow (by omega) (by omega)
  change ((Nat.toDigits 2 (options.radix ^ (length - length / 2) - 1)).length + 7) / 8 = _
  have hlog := natCeil_mul_logb 2 options.radix (length - length / 2)
  rw [Nat.cast_ofNat] at hlog
  rw [length_toDigits_pred one_lt_two hpow, Standard.b, hlog]
  rfl

theorem outputLength_eq (hradix : 2 ≤ options.radix) (hlength : 2 ≤ length) :
    (ff1Setup length options).outputLength = Standard.d options.radix (length - length / 2) := by
  rw [Standard.d, ← byteLength_eq hradix hlength]
  rfl

variable (h16 : IsBlockCipher options.encryptBlock)

include h16

/-- The bytes `S` from block `block` on. -/
theorem expand_eq {r : List UInt8} (hr : r.length = 16) (n : ℕ) :
    ∀ {block : ℕ} {s : List UInt8}, s.length = 16 * (block + n) →
      expand options.encryptBlock r block n s = .ok (s.take (16 * block) ++
        (List.range' block n).flatMap fun j => options.encryptBlock
          (Standard.xorBytes r (Standard.bytes 16 j))) := by
  induction n with
  | zero =>
    intro block s hs
    rw [expand, List.range'_zero, List.flatMap_nil, List.append_nil, ← Nat.add_zero block, ← hs,
      List.take_length]
  | succ n ih =>
    intro block s hs
    let output := options.encryptBlock (Standard.xorBytes r (Standard.bytes 16 block))
    have hxor : (Standard.xorBytes r (Standard.bytes 16 block)).length = 16 := by
      rw [Standard.xorBytes, List.length_zipWith, hr, length_bytes, Nat.min_self]
    have houtput : output.length = 16 := h16 _ hxor
    have hset : (setBytes s output (block * 16)).length = 16 * (block + 1 + n) := by
      rw [length_setBytes (by rw [houtput]; omega)]
      omega
    have htake : (setBytes s output (block * 16)).take (16 * (block + 1)) =
        s.take (16 * block) ++ output := by
      have hoffset : 16 * (block + 1) = block * 16 + output.length := by
        rw [houtput]
        omega
      rw [hoffset, take_setBytes (by omega), Nat.mul_comm]
    rw [expand, BLOCK_SIZE, toBytes_eq, xor_eq (hr.trans (length_bytes 16 block).symm),
      cipher_eq h16 hxor]
    change expand options.encryptBlock r (block + 1) n (setBytes s output (block * 16)) = _
    rw [ih hset, htake, List.range'_succ, List.flatMap_cons, List.append_assoc]

theorem restValue_eq (s : Ff1Setup) (hpos : 0 < s.outputLength) {fixedMac rest r : List UInt8}
    (hr : r.length = 16)
    (hmac : cbcMac options.encryptBlock fixedMac rest (blocksOf rest.length) = .ok r) :
    restValue s options.encryptBlock fixedMac rest =
      .ok (Standard.numBytes (Standard.S options.encryptBlock r s.outputLength)) := by
  have hblocks : blocksOf s.outputLength = s.outputLength ⌈/⌉ 16 := rfl
  have hone : 1 + (s.outputLength ⌈/⌉ 16 - 1) = s.outputLength ⌈/⌉ 16 := by
    rw [Nat.ceilDiv_eq_add_pred_div]
    omega
  let zeros : List UInt8 := List.replicate (s.outputLength ⌈/⌉ 16 * 16) 0
  have hzeros : zeros.length = 16 * (1 + (s.outputLength ⌈/⌉ 16 - 1)) := by
    rw [hone, List.length_replicate, Nat.mul_comm]
  have hset : (setBytes zeros r 0).length = 16 * (1 + (s.outputLength ⌈/⌉ 16 - 1)) := by
    rw [length_setBytes (by rw [hr, hzeros]; omega), hzeros]
  have htake : (setBytes zeros r 0).take (16 * 1) = r := by
    have h := @take_setBytes zeros r 0 (Nat.zero_le zeros.length)
    rw [hr, List.take_zero, List.nil_append] at h
    exact h
  rw [restValue, hmac, ok_bind, hblocks]
  change (expand options.encryptBlock r 1 (s.outputLength ⌈/⌉ 16 - 1)
    (setBytes zeros r 0) >>= _) = _
  rw [expand_eq h16 hr _ hset, ok_bind, htake, fromBytes_eq]
  rfl

/-- The value of a round is the number `y` of the standard. -/
theorem roundValue_eq (hd : Ff1Domain length options) :
    ∃ fixedMac, cbcMac options.encryptBlock (List.replicate BLOCK_SIZE 0)
        ((ff1Setup length options).tweakPrefix.take (ff1Setup length options).fixedLength)
        (blocksOf (ff1Setup length options).fixedLength) = .ok fixedMac ∧
      ∀ (i : ℕ) (B : List ℕ), roundValue (ff1Setup length options) options.encryptBlock fixedMac i
        (num options.radix B) =
        .ok (Standard.y options.encryptBlock options.radix length options.tweak i B) := by
  let s := ff1Setup length options
  have hbyteLength := byteLength_eq hd.two_le_radix hd.two_le
  have houtputLength := outputLength_eq hd.two_le_radix hd.two_le
  have hfixed : s.fixedLength = 16 * (s.tweakPrefix.length / 16) := fixedLength_eq length options
  have hprefix : s.tweakPrefix.length = 16 + options.tweak.length +
      padding options.tweak.length s.byteLength :=
    length_tweakPrefix length options
  have hmod := padding_mod options.tweak.length s.byteLength
  have htake : (s.tweakPrefix.take s.fixedLength).length = 16 * (s.tweakPrefix.length / 16) := by
    rw [List.length_take]
    omega
  obtain ⟨fixedMac, hmac, hcontinued⟩ := cbcMac_append h16 htake
  have hblocks : blocksOf s.fixedLength = s.tweakPrefix.length / 16 := by
    rw [blocksOf, BLOCK_SIZE]
    omega
  refine ⟨fixedMac, hblocks.symm ▸ hmac, fun i B => ?_⟩
  let rest := roundInput s i (num options.radix B)
  have hrest : rest = s.tweakPrefix.drop s.fixedLength ++ [UInt8.ofNat i] ++
      toBytes (num options.radix B) s.byteLength :=
    roundInput_eq s i _
  have hlength : rest.length = 16 * blocksOf rest.length := by
    have hsum : rest.length = s.tweakPrefix.length - s.fixedLength + 1 + s.byteLength := by
      rw [hrest, List.length_append, List.length_append, List.length_drop, toBytes_eq, length_bytes]
      rfl
    rw [blocksOf, BLOCK_SIZE, hsum]
    omega
  have hPQ : s.tweakPrefix.take s.fixedLength ++ rest =
      Standard.P options.radix (length / 2) length options.tweak.length ++
        Standard.Q options.tweak (Standard.b options.radix (length - length / 2)) i
          (num options.radix B) := by
    have hone : Standard.bytes 1 i = [UInt8.ofNat i] := by
      simp [Standard.bytes, str, UInt8.ofNat_eq_iff_mod_eq_toNat]
    rw [hrest, ← List.append_assoc, ← List.append_assoc, List.take_append_drop, Standard.Q,
      hone, ← hbyteLength, ← padding_eq, toBytes_eq]
    change (ff1Setup length options).tweakPrefix ++ _ ++ _ = _
    rw [tweakPrefix_eq]
    simp only [List.append_assoc]
    rfl
  obtain ⟨hPRF, hlength16⟩ := hcontinued hlength
  have hpos : 0 < s.outputLength := Nat.succ_pos _
  change restValue s options.encryptBlock fixedMac rest = _
  rw [restValue_eq h16 s hpos hlength16 hPRF, hPQ]
  change Except.ok (Standard.numBytes (Standard.S _ _ (ff1Setup length options).outputLength)) = _
  rw [houtputLength]
  rfl

end

/-- The rounds of the standard, on the numbers of the halves. -/
theorem ff1Rounds_eq {length : ℕ} {options : Ff1Options} {fixedMac : List UInt8}
    (hy : ∀ (i : ℕ) (B : List ℕ),
      roundValue (ff1Setup length options) options.encryptBlock fixedMac i
      (num options.radix B) =
        .ok (Standard.y options.encryptBlock options.radix length options.tweak i B)) (n : ℕ) :
    ∀ (i : ℕ) (A B : List ℕ), ff1Rounds (ff1Setup length options) options.encryptBlock fixedMac i n
        (num options.radix A, num options.radix B) =
      let halves := (List.range' i n).foldl
        (Standard.round options.encryptBlock options.radix length options.tweak) (A, B)
      .ok (num options.radix halves.1, num options.radix halves.2) := by
  induction n with
  | zero => exact fun _ _ _ => rfl
  | succ n ih =>
    intro i A B
    have hmodulus : modulus (ff1Setup length options) i =
        options.radix ^ Standard.m (length / 2) (length - length / 2) i := by
      rw [modulus, Standard.m]
      split <;> rfl
    have hc : num options.radix
        (Standard.round options.encryptBlock options.radix length options.tweak (A, B) i).2 =
        (num options.radix A +
          Standard.y options.encryptBlock options.radix length options.tweak i B) %
          modulus (ff1Setup length options) i := by
      rw [Standard.round, num_str, Nat.mod_mod, hmodulus]
    rw [ff1Rounds, hy, ok_bind, ← hc, List.range'_succ, List.foldl_cons]
    exact ih (i + 1) B _

/-- The half that is computed last has the numerals of its round. -/
theorem length_rounds (ciph : List UInt8 → List UInt8) (radix length : ℕ) (T : List UInt8) (n : ℕ) :
    ∀ (i : ℕ) (A B : List ℕ), B.length = Standard.m (length / 2) (length - length / 2) (i + 1) →
      ((List.range' i n).foldl (Standard.round ciph radix length T) (A, B)).2.length =
        Standard.m (length / 2) (length - length / 2) (i + n + 1) := by
  induction n with
  | zero => exact fun i A B hB => hB
  | succ n ih =>
    intro i A B hB
    have hlength : (Standard.round ciph radix length T (A, B) i).2.length =
        Standard.m (length / 2) (length - length / 2) (i + 1 + 1) := by
      have htwo : (i + 1 + 1) % 2 = i % 2 := by omega
      rw [Standard.round, length_str, Standard.m, Standard.m, htwo]
    rw [List.range'_succ, List.foldl_cons]
    have hrest := ih (i + 1) B _ hlength
    rw [Nat.add_right_comm i 1 n] at hrest
    exact hrest

/-- The numbers of the halves of a numeral string. -/
theorem num_halves {length : ℕ} {options : Ff1Options} (hradix : 2 ≤ options.radix) {value : ℕ}
    (hv : value < options.radix ^ length) :
    halves (ff1Setup length options) value =
      (num options.radix ((str options.radix length value).take (length / 2)),
        num options.radix ((str options.radix length value).drop (length / 2))) := by
  have hsplit : length = length / 2 + (length - length / 2) := by omega
  have hstr := str_add options.radix (length / 2) (length - length / 2) value
  rw [← hsplit] at hstr
  have hlength := length_str options.radix (length / 2)
    (value / options.radix ^ (length - length / 2))
  rw [hstr, List.take_left' hlength, List.drop_left' hlength, num_str, num_str, halves,
    ff1Setup_radixV]
  have hdiv : value / options.radix ^ (length - length / 2) < options.radix ^ (length / 2) := by
    rw [Nat.div_lt_iff_lt_mul (Nat.pow_pos (by omega)), ← pow_add, ← hsplit]
    exact hv
  rw [Nat.mod_eq_of_lt hdiv]

theorem ff1Encrypt_eq_reusing (value length : ℕ) (options : Ff1Options) :
    ff1EncryptReusing value length options = ff1Encrypt value length options := by
  simp only [ff1EncryptReusing, ff1Encrypt,
    ff1RoundsReusing_eq _ _ _ (isRest_restBuffer (ff1Setup length options))]

/-- `ff1Encrypt` computes the number of the numeral string that the standard computes. -/
theorem ff1Encrypt_eq_standard {value length : ℕ} {options : Ff1Options}
    (hd : Ff1Domain length options) (h16 : IsBlockCipher options.encryptBlock)
    (hv : value < options.radix ^ length) :
    ff1EncryptReusing value length options = .ok (num options.radix
      (Standard.encrypt options.encryptBlock options.radix options.tweak
        (str options.radix length value))) := by
  obtain ⟨fixedMac, hmac, hy⟩ := roundValue_eq h16 hd
  have h1 := hd.two_le_radix
  have h2 := hd.radix_le
  have h3 := hd.two_le
  have h4 := hd.lt
  have h5 := hd.domain
  have hdrop : ((str options.radix length value).drop (length / 2)).length =
      Standard.m (length / 2) (length - length / 2) (0 + 1) := by
    rw [List.length_drop, length_str]
    rfl
  have hlast := length_rounds options.encryptBlock options.radix length options.tweak 10 0
    ((str options.radix length value).take (length / 2)) _ hdrop
  rw [ff1Encrypt_eq_reusing, ff1Encrypt]
  simp only [if_neg (show ¬(options.radix < 2 ∨ options.radix > 2 ^ 16) by omega),
    if_neg (show ¬(length < 2 ∨ length ≥ 2 ^ 32 ∨
      options.radix ^ length < MIN_DOMAIN_SIZE) by omega),
    if_neg (show ¬value ≥ options.radix ^ length by omega)]
  change (cbcMac _ _ _ _ >>= fun fixedMac => ff1Rounds _ _ fixedMac 0 ROUNDS
    (halves _ value) >>= _) = _
  rw [hmac, ok_bind, num_halves h1 hv, ff1Rounds_eq hy, ok_bind, Standard.encrypt, length_str,
    List.range_eq_range', num_append, hlast]
  rfl

/-- A numeral string of ten digits, with a tweak, and a block cipher that returns its block. -/
theorem ff1Encrypt_eq_standard_ten :
    ff1EncryptReusing 123456789 10 { radix := 10, tweak := [1, 2, 3], encryptBlock := id } =
      .ok (num 10 (Standard.encrypt id 10 [1, 2, 3] (str 10 10 123456789))) :=
  @ff1Encrypt_eq_standard 123456789 10 { radix := 10, tweak := [1, 2, 3], encryptBlock := id }
    { two_le_radix := by decide, radix_le := by decide, two_le := by decide, lt := by decide,
      domain := by decide }
    (fun _ h => h) (by decide)

theorem ff1Encrypt_of_le {length : ℕ} (h : 2 ^ 32 ≤ length) (value : ℕ) (options : Ff1Options) :
    ∃ e, ff1EncryptReusing value length options = .error e := by
  rw [ff1EncryptReusing]
  dsimp only
  by_cases hradix : options.radix < 2 ∨ options.radix > 2 ^ 16
  · exact ⟨_, by rw [if_pos hradix]; rfl⟩
  · exact ⟨_, by rw [if_neg hradix, if_pos (.inr (.inl h))]; rfl⟩

/-- The numeral strings of the lengths that the standard excludes are rejected. -/
theorem ff1Encrypt_long_rejected : ∃ (length : ℕ) (options : Ff1Options), length = 2 ^ 32 ∧
    options.radix = 2 ∧
    MIN_DOMAIN_SIZE ≤ options.radix ^ length ∧ IsBlockCipher options.encryptBlock ∧
    0 < options.radix ^ length ∧
    ff1EncryptReusing 0 length options ≠ .ok (num options.radix
      (Standard.encrypt options.encryptBlock options.radix options.tweak
        (str options.radix length 0))) := by
  obtain ⟨length, hlength⟩ : ∃ length : ℕ, length = 2 ^ 32 := ⟨_, rfl⟩
  refine ⟨length, { radix := 2, tweak := [], encryptBlock := id }, hlength, rfl, ?_, fun _ h => h,
    Nat.two_pow_pos length, ?_⟩
  · calc MIN_DOMAIN_SIZE ≤ 2 ^ 20 := by decide
      _ ≤ 2 ^ length := Nat.pow_le_pow_right (by decide) (by rw [hlength]; decide)
  · obtain ⟨e, he⟩ := ff1Encrypt_of_le hlength.ge 0 { radix := 2, tweak := [], encryptBlock := id }
    rw [he]
    nofun

end IdentityCommon.TokenStatusList
