import IdentityCommon.Lib.OrderedMap
import IdentityCommon.Lib.Run
import IdentityCommon.TokenStatusList.Compression
import Mathlib.Data.Rat.Defs

/-!
# Status lists in CBOR

`StatusListCbor`: a map with compressed bytes, which stay as they are until a status is set, and the
list that is inflated from them when it is read.

## Main definitions

- `Field`, `Item` — values in a CBOR map, and what bytes are decoded to
- `StatusListCbor` — the map, with its bits and its compressed bytes, and the inflated list
- `StatusListCbor.step` — setting a status, reading the list, encoding
- `ListSource` — how an object was made

## Main results

- `Consistent.step` — the inflated list is what the bytes decompress to, until a status is set
- `Consistent.encodedStructure` — what is encoded decompresses to the statuses of the object
- `HistoryOk.step` — until a status is set the map is what it was

## Design notes

CBOR values other than numbers, text and bytes are of a type `X`, and so are numbers that are not
finite. Bytes with a CBOR item in them are of a type `B`.
-/

namespace IdentityCommon.TokenStatusList

open IdentityCommon.Except Run

/-- A key of a CBOR map. -/
inductive Label
  | int (n : ℤ)
  | text (s : String)
  | other (id : ℕ)
  deriving DecidableEq, Repr

/-- A value in a CBOR map. -/
inductive Field (X : Type)
  | number (n : ℚ)
  | text (s : String)
  | texts (l : List String)
  | bytes (b : List UInt8)
  | other (x : X)
  deriving DecidableEq

/-- A decoded item. -/
inductive Item (X : Type)
  | map (m : OrderedMap Label (Field X))
  | dataItem (data : Item X)
  | other

/-- A CBOR codec. -/
structure Cbor (X B : Type) where
  encode : OrderedMap Label (Field X) → B
  decode : B → Option (Item X)

/-- Maps are decoded from what they are encoded to. -/
def Cbor.Lawful {X B : Type} (cbor : Cbor X B) : Prop :=
  ∀ m, cbor.decode (cbor.encode m) = some (.map m)

variable {X B : Type}

/-- A data item at the top level is unwrapped. -/
def Item.unwrap : Item X → Item X
  | .dataItem data => data.unwrap
  | item => item

/-- `cborDecode`. -/
def Cbor.cborDecode (cbor : Cbor X B) (bytes : B) : Except TokenError (Item X) :=
  match cbor.decode bytes with
  | some item => .ok item.unwrap
  | none => .error (.cose "Unable to decode bytes as CBOR")

/-! ## Schema -/

def bitsOf : Option (Field X) → Option BitsPerStatus
  | some (.number n) =>
    if h : n.num.toNat ∈ [1, 2, 4, 8] ∧ (n.num.toNat : ℚ) = n then some ⟨n.num.toNat, h.1⟩ else none
  | _ => none

def lstOf : Option (Field X) → Option (List UInt8)
  | some (.bytes b) => some b
  | _ => none

def aggregationUriOf : Option (Field X) → Option (Option String)
  | none => some none
  | some (.text s) => some (some s)
  | some _ => none

theorem bitsOf_eq_some {f : Option (Field X)} {bits : BitsPerStatus} :
    bitsOf f = some bits ↔ f = some (.number bits.val) := by
  constructor
  · intro h
    unfold bitsOf at h
    split at h
    case h_2 => cases h
    case h_1 n =>
      split at h
      case isFalse => cases h
      case isTrue hn =>
        cases h
        rw [hn.2]
  · rintro rfl
    unfold bitsOf
    exact dif_pos ⟨by simpa using bits.isWidth, by simp⟩

theorem lstOf_eq_some {f : Option (Field X)} {b : List UInt8} :
    lstOf f = some b ↔ f = some (.bytes b) := by
  constructor
  · intro h
    unfold lstOf at h
    split at h
    case h_1 => rw [Option.some.inj h]
    case h_2 => cases h
  · rintro rfl
    rfl

theorem aggregationUriOf_eq_some {f : Option (Field X)} {uri : Option String} :
    aggregationUriOf f = some uri ↔ f = uri.map .text := by
  constructor
  · intro h
    unfold aggregationUriOf at h
    split at h
    case h_1 =>
      cases h
      rfl
    case h_2 =>
      cases h
      rfl
    case h_3 => cases h
  · rintro rfl
    cases uri with
    | none => rfl
    | some s => rfl

/-- The map of a status list that meets the schema, and the list if it was inflated. -/
structure StatusListCbor (X : Type) where
  entries : OrderedMap Label (Field X)
  bits : BitsPerStatus
  lst : List UInt8
  aggregationUri : Option String
  get_bits : entries.get (.text "bits") = some (.number bits.val)
  get_lst : entries.get (.text "lst") = some (.bytes lst)
  get_aggregationUri : entries.get (.text "aggregation_uri") = aggregationUri.map .text
  statusList : Option InflatedStatusList := none

namespace StatusListCbor

def fromEncodedStructure (entries : OrderedMap Label (Field X)) :
    Except TokenError (StatusListCbor X) :=
  match hbits : bitsOf (entries.get (.text "bits")), hlst : lstOf (entries.get (.text "lst")),
      huri : aggregationUriOf (entries.get (.text "aggregation_uri")) with
  | some bits, some lst, some aggregationUri => .ok {
      entries, bits, lst, aggregationUri, get_bits := bitsOf_eq_some.mp hbits,
      get_lst := lstOf_eq_some.mp hlst
      get_aggregationUri := aggregationUriOf_eq_some.mp huri }
  | _, _, _ => .error (.cose "Error decoding StatusListCbor")

def setLst (list : StatusListCbor X) (lst : List UInt8) : StatusListCbor X where
  entries := list.entries.set (.text "lst") (.bytes lst)
  bits := list.bits
  lst
  aggregationUri := list.aggregationUri
  get_bits := by rw [OrderedMap.get_set_of_ne _ (by decide), list.get_bits]
  get_lst := OrderedMap.get_set_self ..
  get_aggregationUri := by rw [OrderedMap.get_set_of_ne _ (by decide), list.get_aggregationUri]
  statusList := list.statusList

section Pako

variable (pako : Pako)

/-- The getter of the list, which inflates it the first time. -/
def getStatusList (list : StatusListCbor X) :
    StatusListCbor X × Except TokenError InflatedStatusList :=
  match list.statusList with
  | some l => (list, .ok l)
  | none =>
    match decompressStatusListFromBytes pako list.lst list.bits list.aggregationUri with
    | .ok l => ({ list with statusList := some l }, .ok l)
    | .error e => (list, .error e)

def setStatus (list : StatusListCbor X) (index value : ℕ) :
    StatusListCbor X × Except TokenError Unit :=
  match getStatusList pako list with
  | (list, .error e) => (list, .error e)
  | (list, .ok l) =>
    match l.setStatus index value with
    | .ok l => ({ list with statusList := some l }, .ok ())
    | .error e => (list, .error (.statusList e))

def compressStatusListIfModified (list : StatusListCbor X) : Except TokenError (StatusListCbor X) :=
  match list.statusList with
  | none => .ok list
  | some l =>
    if l.isModified then
      match compressStatusListToBytes pako l.toStatusList with
      | .ok lst => .ok (list.setLst lst)
      | .error e => .error (.statusList e)
    else .ok list

/-- The object and the map that is encoded, after the list is compressed if it was modified. -/
def encodedStructure (list : StatusListCbor X) :
    StatusListCbor X × Except TokenError (OrderedMap Label (Field X)) :=
  match compressStatusListIfModified pako list with
  | .ok list => (list, .ok list.entries)
  | .error e => (list, .error e)

/-- The statuses that the object reports. -/
def statuses (list : StatusListCbor X) : Except TokenError (List ℕ) :=
  (fun l => l.statusList) <$> (getStatusList pako list).2

end Pako

/-! ## Creating and decoding -/

/-- A new map: the aggregation uri if it is not empty, the bits and the compressed bytes. -/
def new (bits : BitsPerStatus) (lst : List UInt8) (aggregationUri : Option String) :
    StatusListCbor X where
  entries :=
    let entries : OrderedMap Label (Field X) := match aggregationUri.filter (· ≠ "") with
      | some uri => OrderedMap.empty.set (.text "aggregation_uri") (.text uri)
      | none => .empty
    (entries.set (.text "bits") (.number bits.val)).set (.text "lst") (.bytes lst)
  bits
  lst
  aggregationUri := aggregationUri.filter (· ≠ "")
  get_bits := by rw [OrderedMap.get_set_of_ne _ (by decide), OrderedMap.get_set_self]
  get_lst := OrderedMap.get_set_self ..
  get_aggregationUri := by
    rw [OrderedMap.get_set_of_ne _ (by decide), OrderedMap.get_set_of_ne _ (by decide)]
    cases aggregationUri.filter (· ≠ "") with
    | none => rfl
    | some uri => exact OrderedMap.get_set_self ..

inductive CreateOptions
  | statusList (l : InflatedStatusList)
  | compressed (bits : BitsPerStatus) (list : List UInt8) (aggregationUri : Option String)
  | statuses (bits : BitsPerStatus) (list : List ℕ) (aggregationUri : Option String)

def liftError {α : Type} : Except StatusListError α → Except TokenError α
  | .ok a => .ok a
  | .error e => .error (.statusList e)

def create (pako : Pako) : CreateOptions → Except TokenError (StatusListCbor X)
  | .statusList l => do
    let lst ← liftError (compressStatusListToBytes pako l.toStatusList)
    return new l.bitsPerStatus lst l.aggregationUri
  | .compressed bits list aggregationUri => do
    -- the bytes are kept, and inflated once to see that they are a status list
    let _ ← decompressStatusListFromBytes pako list bits none
    return new bits list aggregationUri
  | .statuses bits list aggregationUri => do
    let l ← liftError (StatusList.new list bits.val)
    let lst ← liftError (compressStatusListToBytes pako l)
    return new bits lst aggregationUri

def decode (cbor : Cbor X B) (bytes : B) : Except TokenError (StatusListCbor X) := do
  match ← cbor.cborDecode bytes with
  | .map entries => fromEncodedStructure entries
  | _ => .error (.cose "Error decoding StatusListCbor")

/-! ## Runs -/

/-- Setting a status, reading the list or a status of it, encoding or reading the compressed
bytes. -/
inductive Event
  | setStatus (index value : ℕ)
  | read
  | encode

/-- An object after some events, and whether a status was set. -/
structure History (X : Type) where
  list : StatusListCbor X
  changed : Bool := false

def step (pako : Pako) (history : History X) : Event → History X
  | .setStatus index value =>
    match setStatus pako history.list index value with
    | (list, .ok ()) => ⟨list, true⟩
    | (list, .error _) => ⟨list, history.changed⟩
  | .read => ⟨(getStatusList pako history.list).1, history.changed⟩
  | .encode => ⟨(encodedStructure pako history.list).1, history.changed⟩

end StatusListCbor

/-- How an object was made: created or decoded, and what was done with it since. -/
inductive ListSource (B : Type)
  | created (options : StatusListCbor.CreateOptions) (events : List StatusListCbor.Event)
  | decoded (bytes : B) (events : List StatusListCbor.Event)

namespace ListSource

def start (pako : Pako) (cbor : Cbor X B) : ListSource B → Except TokenError (StatusListCbor X)
  | created options _ => StatusListCbor.create pako options
  | decoded bytes _ => StatusListCbor.decode cbor bytes

def events : ListSource B → List StatusListCbor.Event
  | created _ events | decoded _ events => events

def history (pako : Pako) (cbor : Cbor X B) (source : ListSource B) :
    Except TokenError (StatusListCbor.History X) := do
  let list ← source.start pako cbor
  return run (StatusListCbor.step pako) ⟨list, false⟩ source.events

end ListSource

/-! ## The inflated list -/

namespace StatusListCbor

variable {pako : Pako} {list : StatusListCbor X}

/-- A list that was not modified is what the compressed bytes decompress to. -/
structure Inflated (pako : Pako) (list : StatusListCbor X) (l : InflatedStatusList) : Prop where
  bits : l.bitsPerStatus = list.bits
  aggregationUri : l.aggregationUri = list.aggregationUri
  fills : FillsBytes l.toStatusList
  unmodified : l.isModified = false →
    decompressStatusListFromBytes pako list.lst list.bits list.aggregationUri = .ok l

/-- The map of a list without its compressed bytes. -/
def withoutLst (entries : OrderedMap Label (Field X)) : OrderedMap Label (Field X) :=
  entries.set (.text "lst") (.bytes [])

/-- The inflated list of an object, if there is one, goes with its bytes. -/
def Consistent (pako : Pako) (list : StatusListCbor X) : Prop :=
  ∀ l, list.statusList = some l → Inflated pako list l

/-- No status was set since the object was made. -/
def Unmodified (list : StatusListCbor X) : Prop :=
  ∀ l, list.statusList = some l → l.isModified = false

theorem inflated_of_decompress {l : InflatedStatusList}
    (h : decompressStatusListFromBytes pako list.lst list.bits list.aggregationUri = .ok l) :
    Inflated pako list l := by
  obtain ⟨hbits, huri, -, hfills⟩ := decompress_eq_ok h
  exact ⟨hbits, huri, hfills, fun _ => h⟩

/-- The getter puts in the list what it returns, and nothing else. -/
theorem getStatusList_cases (pako : Pako) (list : StatusListCbor X) :
    (∃ l, getStatusList pako list = ({ list with statusList := some l }, .ok l) ∧
      (list.statusList = some l ∨ list.statusList = none ∧
        decompressStatusListFromBytes pako list.lst list.bits list.aggregationUri = .ok l)) ∨
      ∃ e, getStatusList pako list = (list, .error e) := by
  unfold getStatusList
  split
  case h_1 l hl =>
    refine Or.inl ⟨l, ?_, Or.inl hl⟩
    rw [← hl]
  case h_2 hnone =>
    split
    case h_1 l hl => exact Or.inl ⟨l, rfl, Or.inr ⟨hnone, hl⟩⟩
    case h_2 e _ => exact Or.inr ⟨e, rfl⟩

theorem Consistent.inflated (h : Consistent pako list) {l : InflatedStatusList}
    (hl : list.statusList = some l ∨ list.statusList = none ∧
      decompressStatusListFromBytes pako list.lst list.bits list.aggregationUri = .ok l) :
      Inflated pako list l :=
  hl.elim (h l) fun hl => inflated_of_decompress hl.2

theorem Unmodified.inflated (h : Unmodified list) {l : InflatedStatusList}
    (hl : list.statusList = some l ∨ list.statusList = none ∧
      decompressStatusListFromBytes pako list.lst list.bits list.aggregationUri = .ok l) :
      l.isModified = false :=
  hl.elim (h l) fun hl => (decompress_eq_ok hl.2).2.2.1

theorem Consistent.getStatusList (h : Consistent pako list) :
    Consistent pako (getStatusList pako list).1 := by
  obtain ⟨l, heq, hl⟩ | ⟨e, heq⟩ := getStatusList_cases pako list
  · rw [heq]
    rintro _ ⟨⟩
    obtain ⟨hbits, huri, hfills, hunmodified⟩ := h.inflated hl
    exact ⟨hbits, huri, hfills, hunmodified⟩
  · rwa [heq]

theorem Unmodified.getStatusList (h : Unmodified list) :
    Unmodified (getStatusList pako list).1 := by
  obtain ⟨l, heq, hl⟩ | ⟨e, heq⟩ := getStatusList_cases pako list
  · rw [heq]
    rintro _ ⟨⟩
    exact h.inflated hl
  · rwa [heq]

/-- Reading the list leaves the map and the statuses. -/
theorem getStatusList_spec (pako : Pako) (list : StatusListCbor X) :
    (getStatusList pako list).1.entries = list.entries ∧
      statuses pako (getStatusList pako list).1 = statuses pako list := by
  obtain ⟨l, heq, -⟩ | ⟨e, heq⟩ := getStatusList_cases pako list
  · rw [heq]
    unfold statuses
    rw [heq]
    exact ⟨rfl, rfl⟩
  · rw [heq]
    exact ⟨rfl, rfl⟩

/-- Setting a status: the statuses that are then reported, or nothing when it fails. -/
theorem setStatus_cases (pako : Pako) (list : StatusListCbor X) (index value : ℕ) :
    (∃ l, (getStatusList pako list).2 = .ok l ∧ index < l.totalStatuses ∧
      value < 2 ^ l.bitsPerStatus.val ∧
      setStatus pako list index value =
        ({ list with
          statusList := some { l with
            statusList := l.statusList.set index value, isModified := true } }, .ok ())) ∨
      ∃ e, setStatus pako list index value = ((getStatusList pako list).1, .error e) ∧
        ∀ l, (getStatusList pako list).2 = .ok l →
        ¬(index < l.totalStatuses ∧ value < 2 ^ l.bitsPerStatus.val) := by
  unfold setStatus
  obtain ⟨l, heq, -⟩ | ⟨e, heq⟩ := getStatusList_cases pako list
  · rw [heq]
    dsimp only
    split
    case h_1 l' hl' =>
      obtain ⟨hindex, hvalue, rfl⟩ := setStatus_eq_ok hl'
      exact Or.inl ⟨l, rfl, hindex, hvalue, rfl⟩
    case h_2 e he =>
      refine Or.inr ⟨.statusList e, rfl, ?_⟩
      rintro _ ⟨⟩ ⟨hindex, hvalue⟩
      rw [setStatus_of_lt hindex hvalue] at he
      cases he
  · rw [heq]
    exact Or.inr ⟨e, rfl, nofun⟩

theorem inflated_of_getStatusList (h : Consistent pako list) {l : InflatedStatusList}
    (hl : (StatusListCbor.getStatusList pako list).2 = .ok l) : Inflated pako list l := by
  obtain ⟨l', heq, hl'⟩ | ⟨e, heq⟩ := getStatusList_cases pako list
  · rw [heq] at hl
    cases hl
    exact h.inflated hl'
  · rw [heq] at hl
    cases hl

theorem Consistent.setStatus (h : Consistent pako list) (index value : ℕ) :
    Consistent pako (setStatus pako list index value).1 := by
  obtain ⟨l, hl, -, hvalue, heq⟩ | ⟨e, heq, -⟩ := setStatus_cases pako list index value
  · rw [heq]
    rintro _ ⟨⟩
    obtain ⟨hbits, huri, hfills, -⟩ := inflated_of_getStatusList h hl
    exact ⟨hbits, huri, hfills.set index hvalue, nofun⟩
  · rw [heq]
    exact h.getStatusList

/-- An object whose list was modified compresses it, and reports what its bytes then decompress
to. -/
theorem Consistent.compress (hpako : pako.Lawful) (h : Consistent pako list) :
    ∃ list', compressStatusListIfModified pako list = .ok list' ∧ Consistent pako list' ∧
      list'.bits = list.bits ∧ withoutLst list'.entries = withoutLst list.entries ∧
      statuses pako list' = statuses pako list ∧
      statuses pako { list' with statusList := none } = statuses pako list ∧
      (Unmodified list → list' = list) := by
  unfold compressStatusListIfModified
  split
  case h_1 hnone =>
    refine ⟨list, rfl, h, rfl, rfl, rfl, ?_, fun _ => rfl⟩
    rw [← hnone]
  case h_2 l hl =>
    obtain ⟨hbits, huri, hfills, hunmodified⟩ := h l hl
    have hstatuses : statuses pako list = .ok l.statusList := by
      unfold statuses StatusListCbor.getStatusList
      rw [hl]
      rfl
    split
    case isTrue hmodified =>
      obtain ⟨compressed, hcompress, hdecompress⟩ :=
        decompress_compress hpako hfills list.aggregationUri
      rw [hcompress]
      refine ⟨list.setLst compressed, rfl, ?_, rfl, OrderedMap.set_set .., ?_, ?_, fun hun => ?_⟩
      · intro l' hl'
        cases hl.symm.trans hl'
        refine ⟨hbits, huri, hfills, fun hun => ?_⟩
        rw [hmodified] at hun
        cases hun
      · rw [hstatuses]
        unfold statuses StatusListCbor.getStatusList
        dsimp only [setLst]
        rw [hl]
        rfl
      · rw [hstatuses]
        rw [hbits] at hdecompress
        unfold statuses StatusListCbor.getStatusList
        dsimp only [setLst]
        rw [hdecompress]
        rfl
      · rw [hun l hl] at hmodified
        cases hmodified
    case isFalse hmodified =>
      refine ⟨list, rfl, h, rfl, rfl, rfl, ?_, fun _ => rfl⟩
      rw [hstatuses]
      unfold statuses StatusListCbor.getStatusList
      dsimp only
      rw [hunmodified (Bool.eq_false_iff.mpr hmodified)]
      rfl

/-! ## What is encoded -/

/-- The map of an object is what it is decoded from. -/
theorem fromEncodedStructure_entries (list : StatusListCbor X) :
    fromEncodedStructure list.entries = .ok { list with statusList := none } := by
  obtain ⟨entries, bits, lst, uri, hbits, hlst, huri, l⟩ := list
  unfold fromEncodedStructure
  dsimp only
  split
  case h_1 bits' lst' uri' hbits' hlst' huri' =>
    cases (bitsOf_eq_some.mpr hbits).symm.trans hbits'
    cases (lstOf_eq_some.mpr hlst).symm.trans hlst'
    cases (aggregationUriOf_eq_some.mpr huri).symm.trans huri'
    rfl
  case h_2 hnone =>
    exact (hnone _ _ _ (bitsOf_eq_some.mpr hbits) (lstOf_eq_some.mpr hlst)
      (aggregationUriOf_eq_some.mpr huri)).elim

theorem fromEncodedStructure_eq_ok {entries : OrderedMap Label (Field X)}
    (h : fromEncodedStructure entries = .ok list) :
    list.entries = entries ∧ list.statusList = none := by
  unfold fromEncodedStructure at h
  split at h
  case h_1 =>
    cases h
    exact ⟨rfl, rfl⟩
  case h_2 => cases h

/-- What is encoded is decoded to an object with the same bits and statuses. -/
theorem Consistent.encodedStructure (hpako : pako.Lawful) (h : Consistent pako list) :
    ∃ entries decoded, (encodedStructure pako list).2 = .ok entries ∧
    fromEncodedStructure entries = .ok decoded ∧
      decoded.bits = list.bits ∧ withoutLst entries = withoutLst list.entries ∧
      statuses pako decoded = statuses pako list ∧ (Unmodified list → entries = list.entries) := by
  obtain ⟨list', hcompress, -, hbits, hentries, -, hstatuses, hun⟩ := h.compress hpako
  refine ⟨list'.entries, _, ?_, fromEncodedStructure_entries list', hbits, hentries, hstatuses,
    fun hunmodified => ?_⟩
  · unfold StatusListCbor.encodedStructure
    rw [hcompress]
  · rw [hun hunmodified]

/-! ## What a run does -/

/-- An object whose statuses were not changed has the map that it had. -/
structure HistoryOk (pako : Pako) (entries : OrderedMap Label (Field X))
    (history : History X) : Prop where
  consistent : Consistent pako history.list
  unchanged : history.changed = false → Unmodified history.list ∧ history.list.entries = entries

/-- The object that an event leaves. -/
theorem step_list (pako : Pako) (history : History X) (event : Event) :
    (step pako history event).list = match event with
      | .setStatus index value => (setStatus pako history.list index value).1
      | .read => (getStatusList pako history.list).1
      | .encode => (StatusListCbor.encodedStructure pako history.list).1 := by
  cases event with
  | setStatus index value =>
    unfold StatusListCbor.step
    dsimp only
    split
    case h_1 heq => rw [heq]
    case h_2 heq => rw [heq]
  | read => rfl
  | encode => rfl

theorem encodedStructure_of_compress {list' : StatusListCbor X}
    (h : compressStatusListIfModified pako list = .ok list') :
    StatusListCbor.encodedStructure pako list = (list', .ok list'.entries) := by
  unfold StatusListCbor.encodedStructure
  rw [h]

theorem Consistent.step (hpako : pako.Lawful) {history : History X}
    (h : Consistent pako history.list) (event : Event) :
    Consistent pako (step pako history event).list := by
  rw [step_list]
  cases event with
  | setStatus index value => exact h.setStatus index value
  | read => exact h.getStatusList
  | encode =>
    obtain ⟨list', hcompress, hc, -⟩ := h.compress hpako
    dsimp only
    rw [encodedStructure_of_compress hcompress]
    exact hc

theorem HistoryOk.step (hpako : pako.Lawful) {entries : OrderedMap Label (Field X)}
    (history : History X) (event : Event) (h : HistoryOk pako entries history) :
    HistoryOk pako entries (step pako history event) := by
  obtain ⟨hc, hu⟩ := h
  have hread (hchanged : history.changed = false) :
      Unmodified (StatusListCbor.getStatusList pako history.list).1 ∧
      (StatusListCbor.getStatusList pako history.list).1.entries = entries :=
    ⟨(hu hchanged).1.getStatusList, (getStatusList_spec pako history.list).1.trans (hu hchanged).2⟩
  refine ⟨hc.step hpako event, ?_⟩
  cases event with
  | setStatus index value =>
    unfold StatusListCbor.step
    dsimp only
    obtain ⟨l, -, -, -, heq⟩ | ⟨e, heq, -⟩ := setStatus_cases pako history.list index value
    · rw [heq]
      exact nofun
    · rw [heq]
      exact hread
  | read => exact hread
  | encode =>
    obtain ⟨list', hcompress, -, -, -, -, -, hun⟩ := hc.compress hpako
    unfold StatusListCbor.step
    rw [encodedStructure_of_compress hcompress]
    intro hchanged
    rw [hun (hu hchanged).1]
    exact hu hchanged

theorem statusList_create {options : CreateOptions} (h : create pako options = .ok list) :
    list.statusList = none := by
  cases options with
  | statusList l =>
    obtain ⟨lst, -, h⟩ := bind_eq_ok.mp h
    cases h
    rfl
  | compressed bits bytes uri =>
    obtain ⟨l, -, h⟩ := bind_eq_ok.mp h
    cases h
    rfl
  | statuses bits l uri =>
    obtain ⟨l', -, h⟩ := bind_eq_ok.mp h
    obtain ⟨lst, -, h⟩ := bind_eq_ok.mp h
    cases h
    rfl

theorem decode_eq_ok {cbor : Cbor X B} {bytes : B} (h : decode cbor bytes = .ok list) :
    cbor.cborDecode bytes = .ok (.map list.entries) ∧ list.statusList = none := by
  obtain ⟨item, hitem, h⟩ := bind_eq_ok.mp h
  split at h
  case h_1 entries =>
    obtain ⟨hentries, hnone⟩ := fromEncodedStructure_eq_ok h
    exact ⟨hentries ▸ hitem, hnone⟩
  case h_2 => cases h

theorem historyOk_new (pako : Pako) (h : list.statusList = none) :
    HistoryOk pako list.entries ⟨list, false⟩ := by
  refine ⟨fun l hl => ?_, fun _ => ⟨fun l hl => ?_, rfl⟩⟩
  · cases h.symm.trans hl
  · cases h.symm.trans hl

end StatusListCbor

/-- However an object was made, it is as it should be; its map is that of the bytes if its statuses
were not changed. -/
theorem ListSource.historyOk {pako : Pako} (hpako : pako.Lawful) {cbor : Cbor X B}
    {source : ListSource B} {history : StatusListCbor.History X}
    (h : source.history pako cbor = .ok history) :
    ∃ entries, StatusListCbor.HistoryOk pako entries history ∧
      ∀ bytes events, source = .decoded bytes events →
      cbor.cborDecode bytes = .ok (.map entries) := by
  obtain ⟨list, hlist, h⟩ := bind_eq_ok.mp h
  cases h
  have hok (hnone : list.statusList = none) : StatusListCbor.HistoryOk pako list.entries
      (run (StatusListCbor.step pako) ⟨list, false⟩ source.events) :=
    invariant_run (fun history event h => h.step hpako history event)
      (StatusListCbor.historyOk_new pako hnone) _
  cases source with
  | created options events => exact ⟨_, hok (StatusListCbor.statusList_create hlist), nofun⟩
  | decoded bytes events =>
    obtain ⟨hitem, hnone⟩ := StatusListCbor.decode_eq_ok hlist
    refine ⟨_, hok hnone, ?_⟩
    rintro _ _ ⟨⟩
    exact hitem

end IdentityCommon.TokenStatusList
