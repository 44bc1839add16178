import IdentityCommon.Lib.Cbor
import Mathlib.Data.List.Induction
import Mathlib.Data.Nat.Size
import Mathlib.Tactic.Ring

/-!
# DER

Elements of a tag, a length and a content in the distinguished encoding rules, and the contents of
integers that are not negative.

## Main definitions

- `lengthOctets`, `tlv` — the shortest definite form of a length, and an element
- `IsLength` — the definite forms of a length
- `integerOctets`, `Minimal` — the content of a natural number, and the contents that are as short
  as they can be
- `readElement` — the first element of bytes

## Main results

- `readElement_tlv` — the element that was written is read
- `minimal_iff` — a content is as short as it can be where it is the one of its number
-/

namespace IdentityCommon.Der

open Cbor

abbrev Bytes := List UInt8

/-! ## Numbers in bytes -/

theorem ofBigEndian_append (b c : Bytes) :
    ofBigEndian (b ++ c) = ofBigEndian b * 256 ^ c.length + ofBigEndian c := by
  induction c using List.reverseRecOn generalizing b with
  | nil => simp [ofBigEndian]
  | append_singleton c d ih =>
    have hlast : ∀ l : Bytes, ofBigEndian (l ++ [d]) = ofBigEndian l * 256 + d.toNat := fun l => by
      rw [ofBigEndian, List.foldl_append]
      rfl
    rw [← List.append_assoc, hlast, ih, hlast, List.length_append, List.length_singleton, pow_succ]
    ring

theorem ofBigEndian_cons (a : UInt8) (b : Bytes) :
    ofBigEndian (a :: b) = a.toNat * 256 ^ b.length + ofBigEndian b := by
  have h := ofBigEndian_append [a] b
  rwa [List.singleton_append, show ofBigEndian [a] = a.toNat by simp [ofBigEndian]] at h

theorem ofBigEndian_lt (b : Bytes) : ofBigEndian b < 256 ^ b.length := by
  induction b with
  | nil => decide
  | cons a b ih =>
    rw [ofBigEndian_cons, List.length_cons, pow_succ, mul_comm _ 256]
    calc a.toNat * 256 ^ b.length + ofBigEndian b < a.toNat * 256 ^ b.length + 256 ^ b.length :=
        Nat.add_lt_add_left ih _
      _ = (a.toNat + 1) * 256 ^ b.length := (Nat.succ_mul _ _).symm
      _ ≤ 256 * 256 ^ b.length := Nat.mul_le_mul_right _ a.toNat_lt

theorem bigEndian_ofBigEndian (b : Bytes) : bigEndian b.length (ofBigEndian b) = b := by
  induction b using List.reverseRecOn with
  | nil => rfl
  | append_singleton b d ih =>
    have hd := d.toNat_lt
    have hlast : ofBigEndian (b ++ [d]) = ofBigEndian b * 256 + d.toNat := by
      rw [ofBigEndian, List.foldl_append]
      rfl
    have hdiv : (ofBigEndian b * 256 + d.toNat) / 256 = ofBigEndian b := by omega
    have hbyte : UInt8.ofNat (ofBigEndian b * 256 + d.toNat) = d := by
      rw [← UInt8.toNat_inj, UInt8.toNat_ofNat']
      omega
    rw [List.length_append, List.length_singleton, bigEndian, hlast, hdiv, ih, hbyte]

theorem ofBigEndian_injective {b c : Bytes} (hlen : b.length = c.length)
    (h : ofBigEndian b = ofBigEndian c) : b = c := by
  rw [← bigEndian_ofBigEndian b, hlen, h, bigEndian_ofBigEndian]

/-! ## Lengths -/

/-- The bytes of a number, without zeros before them. -/
def octets (n : ℕ) : Bytes := bigEndian ((n.size + 7) / 8) n

theorem size_div (n : ℕ) : (n / 256).size = n.size - 8 := by
  refine eq_of_forall_ge_iff fun k => ?_
  rw [Nat.size_le, Nat.sub_le_iff_le_add, Nat.size_le, Nat.div_lt_iff_lt_mul (by decide), pow_add,
    show (256 : ℕ) = 2 ^ 8 from rfl]

theorem octets_eq {n : ℕ} (h : 0 < n) : octets n = octets (n / 256) ++ [UInt8.ofNat n] := by
  have hsize : 0 < n.size := Nat.size_pos.mpr h
  have hsucc : (n.size + 7) / 8 = (n.size - 8 + 7) / 8 + 1 := by omega
  rw [octets, hsucc, bigEndian, octets, size_div]

theorem lt_pow_size (n : ℕ) : n < 256 ^ ((n.size + 7) / 8) := by
  have h : n.size ≤ 8 * ((n.size + 7) / 8) := by omega
  rw [show (256 : ℕ) = 2 ^ 8 from rfl, ← pow_mul]
  exact Nat.size_le.mp h

theorem ofBigEndian_octets (n : ℕ) : ofBigEndian (octets n) = n :=
  ofBigEndian_bigEndian (lt_pow_size n)

theorem length_octets_le {n k : ℕ} (h : n < 256 ^ k) : (octets n).length ≤ k := by
  rw [octets, length_bigEndian]
  rw [show (256 : ℕ) = 2 ^ 8 from rfl, ← pow_mul, ← Nat.size_le] at h
  omega

/-- The shortest definite form of a length. -/
def lengthOctets (n : ℕ) : Bytes :=
  if n < 128 then [UInt8.ofNat n] else UInt8.ofNat (128 + (octets n).length) :: octets n

/-- The definite forms of a length: one octet, or their number and then the octets, with zeros
before them or not. -/
def IsLength (form : Bytes) (n : ℕ) : Prop :=
  n < 128 ∧ form = [UInt8.ofNat n] ∨
    ∃ digits : Bytes, digits.length < 127 ∧ form = UInt8.ofNat (128 + digits.length) :: digits ∧
    ofBigEndian digits = n

/-- An element. -/
def tlv (tag : UInt8) (content : Bytes) : Bytes := tag :: (lengthOctets content.length ++ content)

/-- The length in a definite form, and what follows it. -/
def readLength : Bytes → Option (ℕ × Bytes)
  | [] => none
  | first :: rest =>
    if first.toNat < 128 then some (first.toNat, rest) else takeNumber (first.toNat - 128) rest

/-- The tag and the content of the first element, and what follows it. -/
def readElement : Bytes → Option (UInt8 × Bytes × Bytes)
  | [] => none
  | tag :: rest => do
    let (length, rest) ← readLength rest
    if length ≤ rest.length then some (tag, rest.take length, rest.drop length) else none

theorem isLength_lengthOctets {n : ℕ} (h : n < 256 ^ 126) : IsLength (lengthOctets n) n := by
  unfold lengthOctets
  split_ifs with hn
  · exact .inl ⟨hn, rfl⟩
  · exact .inr ⟨octets n, Nat.lt_succ_of_le (length_octets_le h), rfl, ofBigEndian_octets n⟩

/-- A length is read in each of its definite forms. -/
theorem readLength_of_isLength {form : Bytes} {n : ℕ} (h : IsLength form n) (rest : Bytes) :
    readLength (form ++ rest) = some (n, rest) := by
  rcases h with ⟨hn, rfl⟩ | ⟨digits, hcount, rfl, rfl⟩
  · have hfirst : (UInt8.ofNat n).toNat = n := by
      rw [UInt8.toNat_ofNat']
      omega
    rw [List.singleton_append, readLength, if_pos (by rw [hfirst]; exact hn), hfirst]
  · have hfirst : (UInt8.ofNat (128 + digits.length)).toNat = 128 + digits.length := by
      rw [UInt8.toNat_ofNat']
      omega
    rw [List.cons_append, readLength, hfirst, if_neg (by omega), Nat.add_sub_cancel_left,
      takeNumber, if_pos (by simp), List.take_left' rfl, List.drop_left' rfl]

theorem readElement_tlv (tag : UInt8) {content : Bytes} (h : content.length < 256 ^ 126)
    (rest : Bytes) :
    readElement (tlv tag content ++ rest) = some (tag, content, rest) := by
  rw [tlv, List.cons_append, List.append_assoc, readElement,
    readLength_of_isLength (isLength_lengthOctets h)]
  simp

theorem length_le_length_tlv (tag : UInt8) (content : Bytes) :
    content.length ≤ (tlv tag content).length := by
  rw [tlv, List.length_cons, List.length_append]
  omega

/-- Bytes that begin with an element begin with one only. -/
theorem tlv_append_inj {tag tag' : UInt8} {content content' rest rest' : Bytes}
    (hlength : (tlv tag content ++ rest).length < 256 ^ 126)
    (h : tlv tag content ++ rest = tlv tag' content' ++ rest') :
    tag = tag' ∧ content = content' ∧ rest = rest' := by
  have hinner : ∀ (t : UInt8) (c r : Bytes), c.length ≤ (tlv t c ++ r).length := fun t c r => by
    rw [List.length_append]
    exact (length_le_length_tlv t c).trans (Nat.le_add_right _ _)
  have hread := readElement_tlv tag ((hinner tag content rest).trans_lt hlength) rest
  rw [h] at hread hlength
  rw [readElement_tlv tag' ((hinner tag' content' rest').trans_lt hlength) rest'] at hread
  cases hread
  exact ⟨rfl, rfl, rfl⟩

theorem length_tlv_le (tag : UInt8) (content : Bytes) {k : ℕ} (h : content.length < 256 ^ k) :
    (tlv tag content).length ≤ content.length + k + 2 := by
  have hform : (lengthOctets content.length).length ≤ k + 1 := by
    unfold lengthOctets
    split_ifs
    · exact Nat.le_add_left 1 k
    · exact Nat.succ_le_succ (length_octets_le h)
  rw [tlv, List.length_cons, List.length_append]
  omega

/-! ## Integers -/

/-- The content of a natural number: its bytes, and a zero before them where they begin with a bit
that is set. -/
def integerOctets (n : ℕ) : Bytes := bigEndian (n.size / 8 + 1) n

/-- A content that is as short as it can be, of an integer that is not negative. -/
def Minimal : Bytes → Prop
  | [] => False
  | [a] => a.toNat < 128
  | a :: b :: _ => a.toNat < 128 ∧ (a = 0 → 128 ≤ b.toNat)

theorem ofBigEndian_integerOctets (n : ℕ) : ofBigEndian (integerOctets n) = n := by
  refine ofBigEndian_bigEndian ?_
  rw [show (256 : ℕ) = 2 ^ 8 from rfl, ← pow_mul, ← Nat.size_le]
  omega

/-- How many bits the number of a content has, of which the first byte is not zero. -/
theorem lt_size_of_cons {a : UInt8} {b : Bytes} {k : ℕ} (hlow : 2 ^ k ≤ a.toNat) :
    8 * b.length + k < (ofBigEndian (a :: b)).size := by
  rw [Nat.lt_size, ofBigEndian_cons, pow_add, pow_mul, mul_comm]
  exact (Nat.mul_le_mul_right _ hlow).trans (Nat.le_add_right _ _)

theorem size_le_of_cons {a : UInt8} {b : Bytes} {k : ℕ} (hhigh : a.toNat < 2 ^ k) :
    (ofBigEndian (a :: b)).size ≤ 8 * b.length + k := by
  have hb := ofBigEndian_lt b
  rw [Nat.size_le, ofBigEndian_cons, pow_add, pow_mul, mul_comm _ (2 ^ k)]
  calc a.toNat * 256 ^ b.length + ofBigEndian b < (a.toNat + 1) * 256 ^ b.length := by
        rw [Nat.succ_mul]
        exact Nat.add_lt_add_left hb _
    _ ≤ 2 ^ k * 256 ^ b.length := Nat.mul_le_mul_right _ hhigh

/-- The bytes of a number are those that do not begin with a zero. -/
theorem octets_ofBigEndian {a : UInt8} {b : Bytes} :
    octets (ofBigEndian (a :: b)) = a :: b ↔ a ≠ 0 := by
  constructor
  · rintro h rfl
    have hvalue : ofBigEndian (0 :: b) = ofBigEndian b := by
      rw [ofBigEndian_cons]
      simp
    have hle := length_octets_le (ofBigEndian_lt b)
    rw [← hvalue, h, List.length_cons] at hle
    omega
  · intro ha
    have hpos : 1 ≤ a.toNat := Nat.one_le_iff_ne_zero.mpr fun h => ha (UInt8.toNat_inj.mp h)
    have hlow := lt_size_of_cons (b := b) (k := 0) hpos
    have hhigh := size_le_of_cons (b := b) (k := 8) a.toNat_lt
    have hcount : ((ofBigEndian (a :: b)).size + 7) / 8 = (a :: b).length := by
      rw [List.length_cons]
      omega
    rw [octets, hcount, bigEndian_ofBigEndian]

/-- A content is as short as it can be exactly where it is the one of its number. -/
theorem minimal_iff {content : Bytes} :
    Minimal content ↔ integerOctets (ofBigEndian content) = content := by
  have hlength : integerOctets (ofBigEndian content) = content ↔
      (ofBigEndian content).size / 8 + 1 = content.length := by
    constructor
    · intro h
      have hlen := congrArg List.length h
      rwa [integerOctets, length_bigEndian] at hlen
    · intro h
      rw [integerOctets, h, bigEndian_ofBigEndian]
  rw [hlength]
  match content with
  | [] => exact iff_of_false id (by simp)
  | [a] =>
    have hvalue : ofBigEndian [a] = a.toNat := by simp [ofBigEndian]
    rw [hvalue]
    show a.toNat < 128 ↔ a.toNat.size / 8 + 1 = 1
    rw [show (128 : ℕ) = 2 ^ 7 from rfl, ← Nat.size_le]
    omega
  | a :: b :: rest =>
    simp only [Minimal, List.length_cons]
    rcases Nat.lt_or_ge a.toNat 128 with ha | ha
    · by_cases hzero : a = 0
      · subst hzero
        have hvalue : ofBigEndian (0 :: b :: rest) = ofBigEndian (b :: rest) := by
          rw [ofBigEndian_cons]
          simp
        rw [hvalue]
        have hhigh := size_le_of_cons (b := rest) (k := 8) b.toNat_lt
        rcases Nat.lt_or_ge b.toNat 128 with hb | hb
        · have hlow := size_le_of_cons (b := rest) (k := 7) hb
          exact iff_of_false (fun h => absurd (h.2 rfl) (Nat.not_le.mpr hb)) (by omega)
        · have hlow := lt_size_of_cons (b := rest) (k := 7) hb
          exact iff_of_true ⟨ha, fun _ => hb⟩ (by omega)
      · have hpos : 1 ≤ a.toNat := Nat.one_le_iff_ne_zero.mpr fun h => hzero (UInt8.toNat_inj.mp h)
        have hlow := lt_size_of_cons (b := b :: rest) (k := 0) hpos
        have hhigh := size_le_of_cons (b := b :: rest) (k := 7) ha
        rw [List.length_cons] at hlow hhigh
        exact iff_of_true ⟨ha, fun h => absurd h hzero⟩ (by omega)
    · have hlow := lt_size_of_cons (b := b :: rest) (k := 7) ha
      rw [List.length_cons] at hlow
      exact iff_of_false (fun h => absurd h.1 (Nat.not_lt.mpr ha)) (by omega)

theorem minimal_integerOctets (n : ℕ) : Minimal (integerOctets n) := by
  rw [minimal_iff, ofBigEndian_integerOctets]

theorem length_integerOctets_le {n k : ℕ} (h : n < 256 ^ k) : (integerOctets n).length ≤ k + 1 := by
  rw [show (256 : ℕ) = 2 ^ 8 from rfl, ← pow_mul, ← Nat.size_le] at h
  rw [integerOctets, length_bigEndian]
  omega

end IdentityCommon.Der
