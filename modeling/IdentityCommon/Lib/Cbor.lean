import Mathlib.Data.List.Basic
import Mathlib.Data.Nat.Size
import Mathlib.Tactic.Ring

/-!
# Data items of CBOR

A data item and its deterministic encoding, and a parser that accepts other encodings of an item as
well: an argument that is not in its shortest form, or an array, a map or a string of a length that
is written in more bytes than it needs.

## Main definitions

- `Item` — data items: integers, strings, arrays, maps, tagged items and simple values
- `encode`, `decode` — the shortest encoding, and the parser
- `Codec` — an encoder and a decoder that agree

## Main results

- `parse_encode` — the encoding of an item is parsed back, whatever follows it
- `encode_injective` — different items have different encodings
- `Codec.encode_injective` — the same of every codec

## Design notes

Floating-point numbers and indefinite lengths are not parsed. An argument of `2 ^ 64` or more, that
the format does not have, is written in a form that it reserves, so that every item has an encoding.
-/

namespace IdentityCommon.Cbor

inductive Item
  | unsigned (n : ℕ)
  | negative (n : ℕ)
  | bytes (b : List UInt8)
  | text (s : String)
  | array (items : List Item)
  | map (entries : List (Item × Item))
  | tag (n : ℕ) (item : Item)
  | simple (n : UInt8)

/-- Induction over an item, the items of an array and the keys and values of a map. -/
@[induction_eliminator, elab_as_elim]
theorem Item.induction {motive : Item → Prop} (unsigned : ∀ n, motive (unsigned n))
    (negative : ∀ n, motive (negative n)) (bytes : ∀ b, motive (bytes b))
    (text : ∀ s, motive (text s)) (array : ∀ items, (∀ x ∈ items, motive x) → motive (array items))
    (map : ∀ entries, (∀ e ∈ entries, motive e.1 ∧ motive e.2) → motive (map entries))
    (tag : ∀ n item, motive item → motive (tag n item)) (simple : ∀ n, motive (simple n)) :
    ∀ v, motive v :=
  Item.rec (motive_1 := motive) (motive_2 := fun items => ∀ x ∈ items, motive x)
    (motive_3 := fun entries => ∀ e ∈ entries, motive e.1 ∧ motive e.2)
      (motive_4 := fun e => motive e.1 ∧ motive e.2)
    unsigned negative bytes text array map tag simple (by simp)
      (fun _ _ h hs => List.forall_mem_cons.mpr ⟨h, hs⟩)
    (by simp) (fun _ _ h hs => List.forall_mem_cons.mpr ⟨h, hs⟩) (fun _ _ h h' => ⟨h, h'⟩)

/-! ## Arguments -/

/-- A number in `k` bytes, the most significant one first. -/
def bigEndian : ℕ → ℕ → List UInt8
  | 0, _ => []
  | k + 1, n => bigEndian k (n / 256) ++ [UInt8.ofNat n]

def ofBigEndian (b : List UInt8) : ℕ := b.foldl (fun n d => n * 256 + d.toNat) 0

@[simp] theorem length_bigEndian (k n : ℕ) : (bigEndian k n).length = k := by
  induction k generalizing n with
  | zero => rfl
  | succ k ih => rw [bigEndian, List.length_append, ih, List.length_singleton]

theorem ofBigEndian_bigEndian {k n : ℕ} (h : n < 256 ^ k) : ofBigEndian (bigEndian k n) = n := by
  induction k generalizing n with
  | zero => simp only [pow_zero, Nat.lt_one_iff] at h; rw [h]; rfl
  | succ k ih =>
    have hdiv : n / 256 < 256 ^ k := Nat.div_lt_of_lt_mul (by rwa [pow_succ, mul_comm] at h)
    have hlast : (UInt8.ofNat n).toNat = n % 256 := UInt8.toNat_ofNat'
    have hprefix := ih hdiv
    rw [ofBigEndian] at hprefix
    rw [ofBigEndian, bigEndian, List.foldl_append, hprefix, List.foldl_cons, List.foldl_nil, hlast]
    exact Nat.div_add_mod' n 256

/-- The initial byte of an item, with what its argument is written in. -/
def initial (major info : ℕ) : UInt8 := UInt8.ofNat (32 * major + info)

def encodeHead (major n : ℕ) : List UInt8 :=
  if n < 24 then [initial major n]
  else if n < 256 ^ 1 then initial major 24 :: bigEndian 1 n
  else if n < 256 ^ 2 then initial major 25 :: bigEndian 2 n
  else if n < 256 ^ 4 then initial major 26 :: bigEndian 4 n
  else if n < 256 ^ 8 then initial major 27 :: bigEndian 8 n
  else initial major 28 :: (List.replicate n.size 1 ++ 0 :: bigEndian n.size n)

/-- The first `k` bytes, as a number. -/
def takeNumber (k : ℕ) (b : List UInt8) : Option (ℕ × List UInt8) :=
  if k ≤ b.length then some (ofBigEndian (b.take k), b.drop k) else none

theorem takeNumber_bigEndian {k n : ℕ} (h : n < 256 ^ k) (rest : List UInt8) :
    takeNumber k (bigEndian k n ++ rest) = some (n, rest) := by
  have hk : (bigEndian k n).length = k := length_bigEndian k n
  rw [takeNumber, if_pos (by simp), List.take_left' hk, List.drop_left' hk, ofBigEndian_bigEndian h]

/-- The major type, the argument and what follows them. -/
def parseHead : List UInt8 → Option (ℕ × ℕ × List UInt8)
  | [] => none
  | first :: rest =>
    let major := first.toNat / 32
    let info := first.toNat % 32
    if info < 24 then some (major, info, rest)
    else match info with
      | 24 => (takeNumber 1 rest).map (major, ·)
      | 25 => (takeNumber 2 rest).map (major, ·)
      | 26 => (takeNumber 4 rest).map (major, ·)
      | 27 => (takeNumber 8 rest).map (major, ·)
      | 28 =>
        let k := (rest.takeWhile (· = 1)).length
        (takeNumber k (rest.drop (k + 1))).map (major, ·)
      | _ => none

theorem toNat_initial {major info : ℕ} (hm : major < 8) (hi : info < 32) :
    (initial major info).toNat / 32 = major ∧ (initial major info).toNat % 32 = info := by
  have h : (initial major info).toNat = (32 * major + info) % 256 := UInt8.toNat_ofNat'
  omega

theorem takeWhile_replicate (k : ℕ) (rest : List UInt8) :
    (List.replicate k 1 ++ 0 :: rest).takeWhile (fun b => decide (b = 1)) = List.replicate k 1 := by
  rw [List.takeWhile_append_of_pos (by simp), List.takeWhile_cons_of_neg (by simp), List.append_nil]

theorem parseHead_encodeHead {major : ℕ} (hm : major < 8) (n : ℕ) (rest : List UInt8) :
    parseHead (encodeHead major n ++ rest) = some (major, n, rest) := by
  obtain ⟨h24, h24'⟩ := @toNat_initial major 24 hm (by omega)
  obtain ⟨h25, h25'⟩ := @toNat_initial major 25 hm (by omega)
  obtain ⟨h26, h26'⟩ := @toNat_initial major 26 hm (by omega)
  obtain ⟨h27, h27'⟩ := @toNat_initial major 27 hm (by omega)
  obtain ⟨h28, h28'⟩ := @toNat_initial major 28 hm (by omega)
  rw [encodeHead]
  split_ifs with h₀ h₁ h₂ h₃ h₄
  · obtain ⟨hn, hn'⟩ := @toNat_initial major n hm (by omega)
    simp only [List.cons_append, List.nil_append, parseHead, hn, hn']
    exact if_pos h₀
  · simp [parseHead, h24, h24', takeNumber_bigEndian h₁]
  · simp [parseHead, h25, h25', takeNumber_bigEndian h₂]
  · simp [parseHead, h26, h26', takeNumber_bigEndian h₃]
  · simp [parseHead, h27, h27', takeNumber_bigEndian h₄]
  · have hsize : n < 256 ^ n.size := n.lt_size_self.trans_le (Nat.pow_le_pow_left (by decide) _)
    have hdrop (t : List UInt8) : (List.replicate n.size 1 ++ 0 :: t).drop (n.size + 1) = t := by
      rw [List.drop_append, List.length_replicate, List.drop_of_length_le (by simp),
        Nat.add_sub_cancel_left]
      rfl
    rw [List.cons_append, List.append_assoc, List.cons_append]
    simp only [parseHead, h28, h28']
    rw [if_neg (by decide)]
    simp only [takeWhile_replicate, List.length_replicate, hdrop, takeNumber_bigEndian hsize]
    rfl

/-! ## Items -/

mutual

def encode : Item → List UInt8
  | .unsigned n => encodeHead 0 n
  | .negative n => encodeHead 1 n
  | .bytes b => encodeHead 2 b.length ++ b
  | .text s => encodeHead 3 s.toUTF8.data.toList.length ++ s.toUTF8.data.toList
  | .array items => encodeHead 4 items.length ++ encodeItems items
  | .map entries => encodeHead 5 entries.length ++ encodeEntries entries
  | .tag n item => encodeHead 6 n ++ encode item
  | .simple n => if n < 24 then [initial 7 n.toNat] else [initial 7 24, n]

def encodeItems : List Item → List UInt8
  | [] => []
  | item :: items => encode item ++ encodeItems items

def encodeEntries : List (Item × Item) → List UInt8
  | [] => []
  | (key, value) :: entries => encode key ++ encode value ++ encodeEntries entries

end

/-- A parser, `n` times. -/
def times {α : Type} (parser : List UInt8 → Option (α × List UInt8)) :
    ℕ → List UInt8 → Option (List α × List UInt8)
  | 0, b => some ([], b)
  | n + 1, b => do
    let (a, b) ← parser b
    let (l, b) ← times parser n b
    some (a :: l, b)

theorem times_flatMap {α : Type} {parser : List UInt8 → Option (α × List UInt8)}
    {print : α → List UInt8} {l : List α}
    (h : ∀ a ∈ l, ∀ rest, parser (print a ++ rest) = some (a, rest)) (rest : List UInt8) :
    times parser l.length (l.flatMap print ++ rest) = some (l, rest) := by
  induction l with
  | nil => rfl
  | cons a l ih =>
    rw [List.forall_mem_cons] at h
    rw [List.flatMap_cons, List.append_assoc, List.length_cons, times, h.1]
    simp only [Option.bind_eq_bind, Option.bind_some, ih h.2]

theorem encodeItems_eq (items : List Item) : encodeItems items = items.flatMap encode := by
  induction items with
  | nil => rfl
  | cons item items ih => rw [encodeItems, ih, List.flatMap_cons]

theorem encodeEntries_eq (entries : List (Item × Item)) :
    encodeEntries entries = entries.flatMap fun e => encode e.1 ++ encode e.2 := by
  induction entries with
  | nil => rfl
  | cons e entries ih => rw [encodeEntries, ih, List.flatMap_cons]

/-- Two items, one after the other. -/
def pair (parser : List UInt8 → Option (Item × List UInt8)) (b : List UInt8) :
    Option ((Item × Item) × List UInt8) := do
  let (key, b) ← parser b
  let (value, b) ← parser b
  some ((key, value), b)

/-- An item and what follows it, if no more than `fuel` items are one in another. -/
def parse : ℕ → List UInt8 → Option (Item × List UInt8)
  | 0, _ => none
  | fuel + 1, b => do
    let (major, n, rest) ← parseHead b
    match major with
    | 0 => some (.unsigned n, rest)
    | 1 => some (.negative n, rest)
    | 2 => if n ≤ rest.length then some (.bytes (rest.take n), rest.drop n) else none
    | 3 =>
      if n ≤ rest.length then
        (String.fromUTF8? ⟨(rest.take n).toArray⟩).map fun s => (.text s, rest.drop n)
      else none
    | 4 => (times (parse fuel) n rest).map fun r => (.array r.1, r.2)
    | 5 => (times (pair (parse fuel)) n rest).map fun r => (.map r.1, r.2)
    | 6 => (parse fuel rest).map fun r => (.tag n r.1, r.2)
    | _ => if n < 256 ∧ b.length ≤ rest.length + 2 then
        some (.simple (UInt8.ofNat n), rest) else none

def decode (b : List UInt8) : Option Item :=
  match parse b.length b with
  | some (item, []) => some item
  | _ => none

theorem one_le_length_encodeHead (major n : ℕ) : 1 ≤ (encodeHead major n).length := by
  rw [encodeHead]
  split_ifs <;> simp

theorem length_le_of_mem_flatMap {α : Type} {print : α → List UInt8} {l : List α}
    {a : α} (h : a ∈ l) :
    (print a).length ≤ (l.flatMap print).length := by
  rw [List.flatMap_def]
  exact (List.sublist_flatten_of_mem (List.mem_map_of_mem h)).length_le

theorem one_le_length_encode (v : Item) : 1 ≤ (encode v).length := by
  have hhead (major n : ℕ) (b : List UInt8) : 1 ≤ (encodeHead major n ++ b).length := by
    rw [List.length_append]
    exact (one_le_length_encodeHead major n).trans (Nat.le_add_right ..)
  cases v with
  | unsigned n => exact one_le_length_encodeHead 0 n
  | negative n => exact one_le_length_encodeHead 1 n
  | simple n => rw [encode]; split_ifs <;> simp
  | _ => rw [encode]; exact hhead _ _ _

theorem exists_fuel {v : Item} {fuel : ℕ} (h : (encode v).length ≤ fuel) : ∃ k, fuel = k + 1 :=
  Nat.exists_eq_add_one_of_ne_zero (Nat.one_le_iff_ne_zero.mp ((one_le_length_encode v).trans h))

/-- Fuel for the bytes of an item is enough for the items in it. -/
theorem parse_encode {v : Item} {fuel : ℕ} (h : (encode v).length ≤ fuel) (rest : List UInt8) :
    parse fuel (encode v ++ rest) = some (v, rest) := by
  induction v generalizing fuel rest with
  | unsigned n => obtain ⟨fuel, rfl⟩ := exists_fuel h; simp [encode, parse, parseHead_encodeHead]
  | negative n => obtain ⟨fuel, rfl⟩ := exists_fuel h; simp [encode, parse, parseHead_encodeHead]
  | bytes b => obtain ⟨fuel, rfl⟩ := exists_fuel h; simp [encode, parse, parseHead_encodeHead]
  | text s =>
    obtain ⟨fuel, rfl⟩ := exists_fuel h
    have hs : String.fromUTF8? ⟨s.toUTF8.data.toList.toArray⟩ = some s := dif_pos s.isValidUTF8
    simp only [encode, parse, List.append_assoc, parseHead_encodeHead (show 3 < 8 by decide),
      Option.bind_eq_bind, Option.bind_some, List.length_append, Nat.le_add_right, if_true,
        List.take_left', List.drop_left', hs,
      Option.map_some]
  | array items ih =>
    obtain ⟨fuel, rfl⟩ := exists_fuel h
    simp only [encode, encodeItems_eq, List.length_append] at h
    have hitems (x : Item) (hx : x ∈ items) (rest : List UInt8) : parse fuel (encode x ++ rest) =
        some (x, rest) := by
      have hlength := @length_le_of_mem_flatMap _ encode _ _ hx
      have hhead := one_le_length_encodeHead 4 items.length
      exact ih x hx (by omega) rest
    simp only [encode, parse, List.append_assoc, parseHead_encodeHead (show 4 < 8 by decide),
      Option.bind_eq_bind, Option.bind_some, encodeItems_eq, times_flatMap hitems, Option.map_some]
  | map entries ih =>
    obtain ⟨fuel, rfl⟩ := exists_fuel h
    simp only [encode, encodeEntries_eq, List.length_append] at h
    have hentries (e : Item × Item) (he : e ∈ entries) (rest : List UInt8) :
        pair (parse fuel) (encode e.1 ++ encode e.2 ++ rest) = some (e, rest) := by
      have hlength := @length_le_of_mem_flatMap _
        (fun e : Item × Item => encode e.1 ++ encode e.2) _ _ he
      have hhead := one_le_length_encodeHead 5 entries.length
      rw [List.length_append] at hlength
      rw [List.append_assoc, pair, (ih e he).1 (by omega)]
      simp only [Option.bind_eq_bind, Option.bind_some]
      rw [(ih e he).2 (by omega)]
      rfl
    simp only [encode, parse, List.append_assoc, parseHead_encodeHead (show 5 < 8 by decide),
      Option.bind_eq_bind, Option.bind_some, encodeEntries_eq]
    rw [times_flatMap hentries]
    rfl
  | tag n item ih =>
    obtain ⟨fuel, rfl⟩ := exists_fuel h
    simp only [encode, List.length_append] at h
    have hhead := one_le_length_encodeHead 6 n
    simp only [encode, parse, List.append_assoc, parseHead_encodeHead (show 6 < 8 by decide),
      Option.bind_eq_bind, Option.bind_some, ih (show (encode item).length ≤ fuel by omega),
        Option.map_some]
  | simple n =>
    obtain ⟨fuel, rfl⟩ := exists_fuel h
    have hhead : ∃ b, encode (.simple n) = b ∧ b.length ≤ 2 ∧
        parseHead (b ++ rest) = some (7, n.toNat, rest) := by
      refine ⟨_, rfl, ?_, ?_⟩
      · rw [encode]
        split_ifs <;> simp
      · rw [encode]
        split_ifs with hn
        · have hn : n.toNat < 24 := hn
          have hparse := parseHead_encodeHead (show 7 < 8 by decide) n.toNat rest
          rwa [encodeHead, if_pos hn] at hparse
        · obtain ⟨h24, h24'⟩ := @toNat_initial 7 24 (by omega) (by omega)
          simp only [List.cons_append, List.nil_append, parseHead, h24, h24']
          simp [takeNumber, ofBigEndian]
    obtain ⟨b, hb, hlength, hparse⟩ := hhead
    have hle : n.toNat < 256 ∧ (b ++ rest).length ≤ rest.length + 2 := by
      refine ⟨n.toNat_lt, ?_⟩
      rw [List.length_append]
      omega
    rw [hb, parse, hparse]
    simp only [Option.bind_eq_bind, Option.bind_some]
    rw [if_pos hle, UInt8.ofNat_toNat]

theorem decode_encode (v : Item) : decode (encode v) = some v := by
  have h := parse_encode (le_refl (encode v).length) []
  rw [List.append_nil] at h
  rw [decode, h]

theorem encode_injective : Function.Injective encode := fun v w h =>
  Option.some.inj ((decode_encode v).symm.trans ((congrArg decode h).trans (decode_encode w)))

instance : DecidableEq Item :=
  fun v w => decidable_of_iff (encode v = encode w) encode_injective.eq_iff

/-! ## Codecs -/

/-- An encoder, and a decoder that may also accept other encodings of an item. -/
structure Codec where
  encode : Item → List UInt8
  decode : List UInt8 → Option Item
  decode_encode (v : Item) : decode (encode v) = some v

theorem Codec.encode_injective (codec : Codec) : Function.Injective codec.encode := fun v w h =>
  Option.some.inj ((codec.decode_encode v).symm.trans
    ((congrArg codec.decode h).trans (codec.decode_encode w)))

def shortest : Codec := ⟨encode, decode, decode_encode⟩

/-- The number 1 is also read where it is not in its shortest form. -/
example : shortest.encode (.array [.unsigned 1]) = [0x81, 0x01] ∧
    shortest.decode [0x81, 0x18, 0x01] = some (.array [.unsigned 1]) := ⟨rfl, rfl⟩

end IdentityCommon.Cbor
