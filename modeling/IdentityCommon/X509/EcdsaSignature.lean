import IdentityCommon.Lib.Der
import IdentityCommon.Lib.Except

/-!
# The encodings of ECDSA signatures

A signature as the two coordinates one after the other, and as the sequence of two integers that
certificates have.

## Main definitions

- `Asn1js` — the library that reads and writes elements
- `ecdsaP1363ToDer`, `ecdsaDerToP1363` — from one encoding to the other
- `ecdsaSignature` — the distinguished encoding of a signature
- `ReadsDistinguished` — that bytes that are read as two integers are in the distinguished encoding

## Main results

- `ecdsaDerToP1363_ecdsaP1363ToDer` — a signature in one encoding is read back from the other
- `strict_iff` — when what is read is only the encoding of its coordinates
-/

namespace IdentityCommon.X509

open Cbor Der IdentityCommon.Except

/-! ## Elements -/

/-- What is read: integers by the octets of their content, sequences, and elements that are
neither. -/
inductive Asn1
  | integer (content : Bytes)
  | sequence (items : List Asn1)
  | other

/-- The library: an element that is read at the beginning of bytes, with where it ends, and the
bytes of an element. A sequence of two integers is written in the distinguished encoding of the
contents that it has, and read with the contents as they are. -/
structure Asn1js where
  fromBER : Bytes → Option (ℕ × Asn1)
  toBER : Asn1 → Bytes
  toBER_sequence : ∀ r s : Bytes, Minimal r → Minimal s →
    toBER (.sequence [.integer r, .integer s]) = tlv 0x30 (tlv 0x02 r ++ tlv 0x02 s)
  fromBER_sequence : ∀ r s : Bytes, Minimal r → Minimal s → r.length < 2 ^ 16 → s.length < 2 ^ 16 →
    fromBER (tlv 0x30 (tlv 0x02 r ++ tlv 0x02 s)) =
      some ((tlv 0x30 (tlv 0x02 r ++ tlv 0x02 s)).length, .sequence [.integer r, .integer s])

structure X509Error where
  message : String
  deriving DecidableEq

/-- A single element, without trailing or malformed data. -/
def parseDer (asn1js : Asn1js) (bytes : Bytes) : Except X509Error Asn1 :=
  match asn1js.fromBER bytes with
  | some (offset, result) =>
    if offset ≠ bytes.length then .error ⟨"Invalid DER encoding"⟩ else .ok result
  | none => .error ⟨"Invalid DER encoding"⟩

/-! ## Integers -/

/-- Strip leading zeros from an unsigned big endian integer. -/
def stripLeadingZeros : Bytes → Bytes
  | a :: b :: rest => if a = 0 then stripLeadingZeros (b :: rest) else a :: b :: rest
  | bytes => bytes

/-- The content of an integer that stays positive. -/
def toPositiveIntegerBytes (bytes : Bytes) : Bytes :=
  let stripped := stripLeadingZeros bytes
  if stripped.headD 0 &&& 0x80 ≠ 0 then 0 :: stripped else stripped

def leftPad (bytes : Bytes) (length : ℕ) : Except X509Error Bytes :=
  let stripped := stripLeadingZeros bytes
  if length < stripped.length then .error ⟨"Integer does not fit the expected length"⟩
  else .ok (List.replicate (length - stripped.length) 0 ++ stripped)

/-! ## Signatures -/

/-- From `r || s` to the sequence. -/
def ecdsaP1363ToDer (asn1js : Asn1js) (signature : Bytes) (coordinateLength : ℕ) :
    Except X509Error Bytes :=
  if signature.length ≠ coordinateLength * 2 then
    .error ⟨"Expected a " ++ toString (coordinateLength * 2) ++
      " byte IEEE P1363 ECDSA signature, got " ++ toString signature.length ++ " bytes"⟩
  else .ok (asn1js.toBER (.sequence [
    .integer (toPositiveIntegerBytes (signature.take coordinateLength)),
    .integer (toPositiveIntegerBytes (signature.drop coordinateLength))]))

/-- From the sequence to `r || s`. -/
def ecdsaDerToP1363 (asn1js : Asn1js) (signature : Bytes) (coordinateLength : ℕ) :
    Except X509Error Bytes := do
  match ← parseDer asn1js signature with
  | .sequence [r, s] => match r, s with
    | .integer r, .integer s => do
      let r ← leftPad r coordinateLength
      let s ← leftPad s coordinateLength
      return r ++ s
    | _, _ => .error ⟨"Invalid DER ECDSA signature"⟩
  | _ => .error ⟨"Invalid DER ECDSA signature"⟩

/-! ## What the encodings are for -/

/-- The distinguished encoding of a signature. -/
def ecdsaSignature (r s : ℕ) : Bytes :=
  tlv 0x30 (tlv 0x02 (integerOctets r) ++ tlv 0x02 (integerOctets s))

/-- Bytes that are accepted are the encoding of the two halves of the result. -/
def Strict (asn1js : Asn1js) (n : ℕ) (bytes : Bytes) : Prop :=
  ∀ out, ecdsaDerToP1363 asn1js bytes n = .ok out → ∃ r s, r < 256 ^ n ∧ s < 256 ^ n ∧
  bytes = ecdsaSignature r s ∧
    out = bigEndian n r ++ bigEndian n s

/-- Bytes that are read as a sequence of two integers, with numbers that fit, have their lengths in
the shortest form and the contents as short as they can be, and these do not begin with a bit that
is set. -/
def ReadsDistinguished (asn1js : Asn1js) (n : ℕ) (bytes : Bytes) : Prop :=
  ∀ r s : Bytes, asn1js.fromBER bytes = some (bytes.length, .sequence [.integer r, .integer s]) →
    ofBigEndian r < 256 ^ n → ofBigEndian s < 256 ^ n →
    bytes = tlv 0x30 (tlv 0x02 r ++ tlv 0x02 s) ∧ Minimal r ∧ Minimal s

/-! ## Leading zeros -/

theorem ofBigEndian_stripLeadingZeros (bytes : Bytes) :
    ofBigEndian (stripLeadingZeros bytes) = ofBigEndian bytes := by
  induction bytes using stripLeadingZeros.induct with
  | case1 b rest ih =>
    rw [stripLeadingZeros, if_pos rfl, ih, ofBigEndian_cons 0]
    simp
  | case2 a b rest h => rw [stripLeadingZeros, if_neg h]
  | case3 bytes h =>
    match bytes with
    | [] => rfl
    | [a] => rfl
    | a :: b :: rest => exact absurd rfl (h a b rest)

theorem length_stripLeadingZeros_le {bytes : Bytes} {n : ℕ} (hn : 0 < n) :
    (stripLeadingZeros bytes).length ≤ n ↔ ofBigEndian bytes < 256 ^ n := by
  rw [← ofBigEndian_stripLeadingZeros bytes]
  constructor
  · intro h
    exact (ofBigEndian_lt _).trans_le (Nat.pow_le_pow_right (by decide) h)
  · intro h
    induction bytes using stripLeadingZeros.induct with
    | case1 b rest ih =>
      rw [stripLeadingZeros, if_pos rfl] at h ⊢
      exact ih h
    | case2 a b rest ha =>
      rw [stripLeadingZeros, if_neg ha] at h ⊢
      have hpos : 2 ^ 0 ≤ a.toNat :=
        Nat.one_le_iff_ne_zero.mpr fun hzero => ha (UInt8.toNat_inj.mp hzero)
      have hsize := lt_size_of_cons (b := b :: rest) hpos
      rw [show (256 : ℕ) = 2 ^ 8 from rfl, ← pow_mul, ← Nat.size_le] at h
      rw [List.length_cons]
      omega
    | case3 bytes hshort =>
      match bytes with
      | [] => exact Nat.zero_le n
      | [a] => exact hn
      | a :: b :: rest => exact absurd rfl (hshort a b rest)

theorem high_bit_iff (a : UInt8) : a &&& 0x80 ≠ 0 ↔ 128 ≤ a.toNat := by
  have hall : ∀ n < 256, n &&& 128 ≠ 0 ↔ 128 ≤ n := by decide +kernel
  rw [← hall a.toNat a.toNat_lt, ← UInt8.toNat_inj.ne, UInt8.toNat_and]
  rfl

/-- What is left without leading zeros does not begin with a zero, unless it is one. -/
theorem headD_stripLeadingZeros {bytes : Bytes} {a b : UInt8} {rest : Bytes}
    (h : stripLeadingZeros bytes = a :: b :: rest) : a ≠ 0 := by
  induction bytes using stripLeadingZeros.induct with
  | case1 b' rest' ih =>
    rw [stripLeadingZeros, if_pos rfl] at h
    exact ih h
  | case2 a' b' rest' ha =>
    rw [stripLeadingZeros, if_neg ha] at h
    cases h
    exact ha
  | case3 bytes hshort =>
    match bytes with
    | [] => cases h
    | [_] => cases h
    | a' :: b' :: rest' => exact absurd rfl (hshort a' b' rest')

theorem stripLeadingZeros_ne_nil {bytes : Bytes} (h : bytes ≠ []) :
    stripLeadingZeros bytes ≠ [] := by
  induction bytes using stripLeadingZeros.induct with
  | case1 b rest ih =>
    rw [stripLeadingZeros, if_pos rfl]
    exact ih (List.cons_ne_nil _ _)
  | case2 a b rest ha =>
    rw [stripLeadingZeros, if_neg ha]
    exact List.cons_ne_nil _ _
  | case3 bytes hshort =>
    match bytes with
    | [] => exact absurd rfl h
    | [_] => exact List.cons_ne_nil _ _
    | a :: b :: rest => exact absurd rfl (hshort a b rest)

/-- The content that is made of a coordinate is the one of its number. -/
theorem toPositiveIntegerBytes_eq {bytes : Bytes} (h : bytes ≠ []) :
    toPositiveIntegerBytes bytes = integerOctets (ofBigEndian bytes) := by
  have hvalue : ofBigEndian (toPositiveIntegerBytes bytes) = ofBigEndian bytes := by
    unfold toPositiveIntegerBytes
    dsimp only
    split_ifs
    · rw [ofBigEndian_cons, ofBigEndian_stripLeadingZeros]
      simp
    · exact ofBigEndian_stripLeadingZeros bytes
  have hminimal : Minimal (toPositiveIntegerBytes bytes) := by
    unfold toPositiveIntegerBytes
    dsimp only
    have hne := stripLeadingZeros_ne_nil h
    have hhead := @headD_stripLeadingZeros bytes
    cases hstripped : stripLeadingZeros bytes with
    | nil => exact absurd hstripped hne
    | cons a rest =>
      rw [List.headD_cons]
      by_cases ha : a &&& 0x80 ≠ 0
      · rw [if_pos ha]
        exact ⟨by decide, fun _ => (high_bit_iff a).mp ha⟩
      · have hlow := Nat.not_le.mp ((high_bit_iff a).not.mp ha)
        rw [if_neg ha]
        cases rest with
        | nil => exact hlow
        | cons b rest => exact ⟨hlow, fun hzero => absurd hzero (hhead hstripped)⟩
  rw [← hvalue, minimal_iff.mp hminimal]

theorem leftPad_eq_ok {bytes out : Bytes} {n : ℕ} (hn : 0 < n) :
    leftPad bytes n = .ok out ↔ ofBigEndian bytes < 256 ^ n ∧
    out = bigEndian n (ofBigEndian bytes) := by
  unfold leftPad
  dsimp only
  split_ifs with h
  · exact ⟨nofun, fun h' => absurd ((length_stripLeadingZeros_le hn).mpr h'.1) (Nat.not_le.mpr h)⟩
  · have hlt := (length_stripLeadingZeros_le hn).mp (Nat.not_lt.mp h)
    have hzeros : ∀ (k : ℕ) (b : Bytes), ofBigEndian (List.replicate k 0 ++ b) = ofBigEndian b := by
      intro k b
      induction k with
      | zero => rfl
      | succ k ih =>
        rw [List.replicate_succ, List.cons_append, ofBigEndian_cons, ih]
        simp
    have hpad : List.replicate (n - (stripLeadingZeros bytes).length) 0 ++ stripLeadingZeros bytes =
        bigEndian n (ofBigEndian bytes) := by
      refine ofBigEndian_injective ?_ ?_
      · rw [length_bigEndian, List.length_append, List.length_replicate,
          Nat.sub_add_cancel (Nat.not_lt.mp h)]
      · rw [hzeros, ofBigEndian_stripLeadingZeros, ofBigEndian_bigEndian hlt]
    rw [hpad]
    exact ⟨fun h' => ⟨hlt, (Except.ok.inj h').symm⟩, fun h' => congrArg _ h'.2.symm⟩

/-! ## From one encoding to the other -/

theorem parseDer_eq_ok {asn1js : Asn1js} {bytes : Bytes} {node : Asn1} :
    parseDer asn1js bytes = .ok node ↔ asn1js.fromBER bytes = some (bytes.length, node) := by
  unfold parseDer
  split
  case h_1 offset result h =>
    rw [h]
    split_ifs with hoffset
    · exact ⟨nofun, fun h' => absurd (congrArg Prod.fst (Option.some.inj h')) hoffset⟩
    · rw [not_not] at hoffset
      rw [hoffset]
      exact ⟨fun h' => by cases h'; rfl, fun h' => by cases h'; rfl⟩
  case h_2 h => exact ⟨nofun, fun h' => by rw [h] at h'; cases h'⟩

/-- What is accepted is read as a sequence of two integers with numbers that fit. -/
theorem ecdsaDerToP1363_eq_ok {asn1js : Asn1js} {bytes out : Bytes} {n : ℕ} (hn : 0 < n) :
    ecdsaDerToP1363 asn1js bytes n = .ok out ↔ ∃ r s : Bytes,
      asn1js.fromBER bytes = some (bytes.length, .sequence [.integer r, .integer s]) ∧
      ofBigEndian r < 256 ^ n ∧
      ofBigEndian s < 256 ^ n ∧ out = bigEndian n (ofBigEndian r) ++
      bigEndian n (ofBigEndian s) := by
  unfold ecdsaDerToP1363
  rw [bind_eq_ok]
  constructor
  · rintro ⟨node, hnode, h⟩
    split at h
    case h_1 r s =>
      split at h
      case h_1 r s =>
        obtain ⟨rOut, hr, h⟩ := bind_eq_ok.mp h
        obtain ⟨sOut, hs, h⟩ := bind_eq_ok.mp h
        cases h
        obtain ⟨hrlt, rfl⟩ := (leftPad_eq_ok hn).mp hr
        obtain ⟨hslt, rfl⟩ := (leftPad_eq_ok hn).mp hs
        exact ⟨r, s, parseDer_eq_ok.mp hnode, hrlt, hslt, rfl⟩
      case h_2 => cases h
    case h_2 => cases h
  · rintro ⟨r, s, hnode, hrlt, hslt, rfl⟩
    refine ⟨_, parseDer_eq_ok.mpr hnode, bind_eq_ok.mpr ⟨_, (leftPad_eq_ok hn).mpr ⟨hrlt, rfl⟩, ?_⟩⟩
    exact bind_eq_ok.mpr ⟨_, (leftPad_eq_ok hn).mpr ⟨hslt, rfl⟩, rfl⟩

/-- The distinguished encoding is read back. -/
theorem fromBER_ecdsaSignature (asn1js : Asn1js) {r s n : ℕ} (hn : n < 2 ^ 15) (hr : r < 256 ^ n)
    (hs : s < 256 ^ n) :
    asn1js.fromBER (ecdsaSignature r s) = some ((ecdsaSignature r s).length,
      .sequence [.integer (integerOctets r), .integer (integerOctets s)]) := by
  have hrlen := length_integerOctets_le hr
  have hslen := length_integerOctets_le hs
  exact asn1js.fromBER_sequence _ _ (minimal_integerOctets r) (minimal_integerOctets s)
    (by omega) (by omega)

theorem halves_injective {r s r' s' n : ℕ} (hr : r < 256 ^ n) (hs : s < 256 ^ n)
    (hr' : r' < 256 ^ n) (hs' : s' < 256 ^ n)
    (h : bigEndian n r ++ bigEndian n s = bigEndian n r' ++ bigEndian n s') : r = r' ∧ s = s' := by
  obtain ⟨hfirst, hlast⟩ := List.append_inj h (by rw [length_bigEndian, length_bigEndian])
  have hr := ofBigEndian_bigEndian hr
  have hs := ofBigEndian_bigEndian hs
  rw [hfirst, ofBigEndian_bigEndian hr'] at hr
  rw [hlast, ofBigEndian_bigEndian hs'] at hs
  exact ⟨hr.symm, hs.symm⟩

section

variable (asn1js : Asn1js) {n : ℕ} (hn : 0 < n)

include hn

theorem ecdsaP1363ToDer_eq {signature : Bytes} (h : signature.length = n * 2) :
    ecdsaP1363ToDer asn1js signature n =
      .ok (ecdsaSignature (ofBigEndian (signature.take n)) (ofBigEndian (signature.drop n))) := by
  have hr : signature.take n ≠ [] := by
    rw [← List.length_pos_iff, List.length_take]
    omega
  have hs : signature.drop n ≠ [] := by
    rw [← List.length_pos_iff, List.length_drop]
    omega
  rw [ecdsaP1363ToDer, if_neg (not_not.mpr h), toPositiveIntegerBytes_eq hr,
    toPositiveIntegerBytes_eq hs, asn1js.toBER_sequence _ _ (minimal_integerOctets _)
      (minimal_integerOctets _)]
  rfl

variable (hn' : n < 2 ^ 15)

include hn'

theorem ecdsaDerToP1363_ecdsaSignature {r s : ℕ} (hr : r < 256 ^ n) (hs : s < 256 ^ n) :
    ecdsaDerToP1363 asn1js (ecdsaSignature r s) n = .ok (bigEndian n r ++ bigEndian n s) := by
  refine (ecdsaDerToP1363_eq_ok hn).mpr ⟨_, _, fromBER_ecdsaSignature asn1js hn' hr hs, ?_, ?_, ?_⟩
  · rwa [ofBigEndian_integerOctets]
  · rwa [ofBigEndian_integerOctets]
  · rw [ofBigEndian_integerOctets, ofBigEndian_integerOctets]

/-- A signature in one encoding is read back from the other. -/
theorem ecdsaDerToP1363_ecdsaP1363ToDer {signature : Bytes} (h : signature.length = n * 2) :
    ∃ der, ecdsaP1363ToDer asn1js signature n = .ok der ∧
    ecdsaDerToP1363 asn1js der n = .ok signature := by
  have htake : (signature.take n).length = n := by
    rw [List.length_take]
    omega
  have hdrop : (signature.drop n).length = n := by
    rw [List.length_drop]
    omega
  have hr := ofBigEndian_lt (signature.take n)
  have hs := ofBigEndian_lt (signature.drop n)
  rw [htake] at hr
  rw [hdrop] at hs
  refine ⟨_, ecdsaP1363ToDer_eq asn1js hn h, ?_⟩
  have hfirst := bigEndian_ofBigEndian (signature.take n)
  have hlast := bigEndian_ofBigEndian (signature.drop n)
  rw [htake] at hfirst
  rw [hdrop] at hlast
  rw [ecdsaDerToP1363_ecdsaSignature asn1js hn hn' hr hs, hfirst, hlast, List.take_append_drop]

/-- What is read of bytes is only the encoding of its coordinates exactly where it is read from that
encoding. -/
theorem strict_iff (bytes : Bytes) : Strict asn1js n bytes ↔ ReadsDistinguished asn1js n bytes := by
  constructor
  · intro h rOctets sOctets hread hr hs
    obtain ⟨r, s, hrlt, hslt, hbytes, hout⟩ :=
      h _ ((ecdsaDerToP1363_eq_ok hn).mpr ⟨_, _, hread, hr, hs, rfl⟩)
    -- the encoding of the numbers is read with its own contents
    have hown := fromBER_ecdsaSignature asn1js hn' hrlt hslt
    rw [← hbytes, hread] at hown
    have hitems := Asn1.sequence.inj (Prod.mk.inj (Option.some.inj hown)).2
    obtain ⟨hrOctets, hrest⟩ := List.cons.inj hitems
    obtain ⟨hsOctets, -⟩ := List.cons.inj hrest
    rw [Asn1.integer.inj hrOctets, Asn1.integer.inj hsOctets]
    exact ⟨hbytes, minimal_integerOctets r, minimal_integerOctets s⟩
  · intro h out hout
    obtain ⟨rOctets, sOctets, hread, hr, hs, rfl⟩ := (ecdsaDerToP1363_eq_ok hn).mp hout
    obtain ⟨hbytes, hrMinimal, hsMinimal⟩ := h rOctets sOctets hread hr hs
    refine ⟨_, _, hr, hs, ?_, rfl⟩
    rw [ecdsaSignature, minimal_iff.mp hrMinimal, minimal_iff.mp hsMinimal]
    exact hbytes

end

/-! ## A library that reads definite lengths -/

/-- The elements of a sequence, of which only integers are told apart. -/
def readItems : ℕ → Bytes → Option (List Asn1)
  | _, [] => some []
  | 0, _ :: _ => none
  | fuel + 1, tag :: bytes => do
    let (tag, content, rest) ← readElement (tag :: bytes)
    let items ← readItems fuel rest
    some ((if tag = 0x02 then .integer content else .other) :: items)

def readAsn1 (bytes : Bytes) : Option (ℕ × Asn1) := do
  let (tag, content, rest) ← readElement bytes
  let offset := bytes.length - rest.length
  if tag = 0x30 then (readItems content.length content).map fun items => (offset, .sequence items)
  else some (offset, if tag = 0x02 then .integer content else .other)

def writeItem : Asn1 → Bytes
  | .integer content => tlv 0x02 content
  | _ => []

def writeAsn1 : Asn1 → Bytes
  | .sequence items => tlv 0x30 (items.flatMap writeItem)
  | item => writeItem item

theorem readItems_tlv {content rest : Bytes} (h : content.length < 256 ^ 126) (fuel : ℕ) :
    readItems (fuel + 1) (tlv 0x02 content ++ rest) = (readItems fuel rest).map
      (.integer content :: ·) := by
  have hread := readElement_tlv 0x02 h rest
  rw [tlv, List.cons_append] at hread ⊢
  rw [readItems, hread]
  show (readItems fuel rest).bind _ = _
  cases readItems fuel rest with
  | none => rfl
  | some items => rfl

theorem readAsn1_pair {r s : Bytes} (hr : r.length < 2 ^ 16) (hs : s.length < 2 ^ 16) :
    readAsn1 (tlv 0x30 (tlv 0x02 r ++ tlv 0x02 s)) =
      some ((tlv 0x30 (tlv 0x02 r ++ tlv 0x02 s)).length, .sequence [.integer r, .integer s]) := by
  have hbound : ∀ k ≤ 126, 256 ^ k ≤ 256 ^ 126 := fun k hk => Nat.pow_le_pow_right (by decide) hk
  have hrtlv := length_tlv_le 0x02 r (k := 2) (by omega)
  have hstlv := length_tlv_le 0x02 s (k := 2) (by omega)
  have hlength : (tlv 0x02 r ++ tlv 0x02 s).length < 256 ^ 3 := by
    rw [List.length_append]
    omega
  have hread := readElement_tlv 0x30 (hlength.trans_le (hbound 3 (by decide))) []
  rw [List.append_nil] at hread
  have htwo : 2 ≤ (tlv 0x02 r ++ tlv 0x02 s).length := by
    rw [List.length_append, tlv, tlv, List.length_cons, List.length_cons]
    omega
  obtain ⟨fuel, hfuel⟩ := Nat.exists_eq_add_of_le' htwo
  have hitems : readItems (fuel + 2) (tlv 0x02 r ++ tlv 0x02 s) =
      some [.integer r, .integer s] := by
    have hsecond : readItems (fuel + 1) (tlv 0x02 s ++ []) = _ :=
      readItems_tlv (hs.trans_le (hbound 2 (by decide))) fuel
    rw [List.append_nil] at hsecond
    rw [readItems_tlv (hr.trans_le (hbound 2 (by decide))), hsecond]
    cases fuel <;> rfl
  rw [readAsn1, hread]
  show (readItems (tlv 0x02 r ++ tlv 0x02 s).length _).map _ = _
  rw [hfuel, hitems]
  rfl

/-- A library that reads lengths in their definite forms, and contents as they are. -/
def definite : Asn1js where
  fromBER := readAsn1
  toBER := writeAsn1
  toBER_sequence r s _ _ := by
    show tlv 0x30 (tlv 0x02 r ++ (tlv 0x02 s ++ [])) = _
    rw [List.append_nil]
  fromBER_sequence _ _ _ _ hr hs := readAsn1_pair hr hs

/-- A negative integer is read as a coordinate, and the result is also the one of the encoding of
that coordinate. -/
theorem ecdsaDerToP1363_negative :
    ecdsaDerToP1363 definite [0x30, 6, 2, 1, 0x80, 2, 1, 1] 32 =
      .ok (bigEndian 32 128 ++ bigEndian 32 1) ∧
      ecdsaDerToP1363 definite (ecdsaSignature 128 1) 32 =
        .ok (bigEndian 32 128 ++ bigEndian 32 1) ∧
      ecdsaSignature 128 1 ≠ [0x30, 6, 2, 1, 0x80, 2, 1, 1] := by
  refine ⟨?_, ?_, by decide +kernel⟩
  · rw [ecdsaDerToP1363_eq_ok (by decide)]
    exact ⟨[0x80], [1], by rfl, by decide, by decide, by decide⟩
  · exact ecdsaDerToP1363_ecdsaSignature definite (by decide) (by decide) (by decide) (by decide)

end IdentityCommon.X509
