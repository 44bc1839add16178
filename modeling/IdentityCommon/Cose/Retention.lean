import IdentityCommon.Cose.Cwt
import IdentityCommon.Lib.Run

/-!
# Bytes that survive

Runs of operations on COSE structures that share their protected headers: header maps call back to
the headers that keep the bytes they were decoded from, and CWTs keep the bytes of their payload.

## Main definitions

- `State`, `Op`, `step` — objects and the operations on them
- `Provenance`, `Tracked` — what a structure was received as, and which part was modified since
- `expectedProtected`, `expectedPayload` — the bytes that a structure promises

## Main results

- `receivedBytes_survive` — after any run, these bytes are verified and written

## Design notes

Objects are numbered in the order in which they are made. An operation that throws changes nothing.
A change of a claims set in place marks the payload. Unprotected headers are not shared: they are
not covered by a signature.
-/

namespace IdentityCommon.Cose

open IdentityCommon.Cbor IdentityCommon.Except Run

variable (codec : Codec) (base : HeaderClasses)

/-! ## Structures -/

/-- A structure, with its protected headers as they are. -/
inductive Structure
  | sign1 (sign1 : Sign1)
  | mac0 (mac0 : Mac0)
  | cwt (cwt : Cwt)

namespace Structure

def protectedHeaders : Structure → ProtectedHeaders
  | sign1 s => s.protectedHeaders
  | mac0 s => s.protectedHeaders
  | cwt s => s.protectedHeaders

/-- The payload that is signed and written. -/
def payloadBytes : Structure → Except CoseError (Option Bytes)
  | sign1 s => .ok s.payload
  | mac0 s => .ok s.payload
  | cwt s => some <$> s.payloadBytes codec

def encode : Structure → Except CoseError Bytes
  | sign1 s => s.encode codec
  | mac0 s => s.encode codec
  | cwt _ => .error (.error "encode is not a function")

end Structure

/-- A class to decode a token with. -/
inductive Kind
  | sign1 (subclass : Option HeaderClasses)
  | mac0 (subclass : Option HeaderClasses)
  | cwt (structures : CwtStructures)

def decodeAs (kind : Kind) (token : Bytes) : Except CoseError Structure :=
  match kind with
  | .sign1 subclass => Structure.sign1 <$> Sign1.decode codec base subclass token
  | .mac0 subclass => Structure.mac0 <$> Mac0.decode codec base subclass token
  | .cwt structures => Structure.cwt <$> Cwt.fromToken codec base structures token

/-! ## Objects -/

structure MapObject where
  entries : TypedMap
  /-- The headers that are told of a change. -/
  onChange : Option ℕ

structure HeadersObject where
  schema : HeaderClass
  map : ℕ
  originalEncodedStructure : Option Bytes

/-- A structure without its headers. -/
inductive Body
  | sign1 (payload : Option Bytes) (signature : Bytes)
  | mac0 (payload : Option Bytes) (tag : Bytes)
  | cwt (payload : CwtPayload) (originalPayloadBytes signature tag : Option Bytes)

structure Node where
  headers : ℕ
  unprotectedHeaders : UnprotectedHeaders
  body : Body

structure State where
  maps : List MapObject := []
  headers : List HeadersObject := []
  nodes : List Node := []

namespace State

/-- Protected headers, with the map that they refer to. -/
def loadHeaders (s : State) (ref : ℕ) : Option ProtectedHeaders := do
  let h ← s.headers[ref]?
  let m ← s.maps[h.map]?
  some { schema := h.schema, headers := m.entries,
         originalEncodedStructure := h.originalEncodedStructure }

def view (s : State) (i : ℕ) : Option Structure := do
  let n ← s.nodes[i]?
  let protectedHeaders ← s.loadHeaders n.headers
  let unprotectedHeaders := n.unprotectedHeaders
  some (match n.body with
    | .sign1 payload signature =>
        .sign1 { protectedHeaders, unprotectedHeaders, payload, signature }
    | .mac0 payload tag => .mac0 { protectedHeaders, unprotectedHeaders, payload, tag }
    | .cwt payload originalPayloadBytes signature tag =>
      .cwt { protectedHeaders, unprotectedHeaders, payload, originalPayloadBytes, signature, tag })

/-- Headers of their own for a structure that is decoded: `fromEncodedStructure` sets the callback
of the map. -/
def addHeaders (s : State) (h : ProtectedHeaders) : State :=
  { s with
    maps := s.maps ++ [{ entries := h.headers, onChange := some s.headers.length }]
    headers := s.headers ++
      [{ schema := h.schema, map := s.maps.length,
         originalEncodedStructure := h.originalEncodedStructure }] }

def addNode (s : State) (n : Node) : State := { s with nodes := s.nodes ++ [n] }

def unprotectedHeadersOf : Structure → UnprotectedHeaders
  | .sign1 s => s.unprotectedHeaders
  | .mac0 s => s.unprotectedHeaders
  | .cwt s => s.unprotectedHeaders

def bodyOf : Structure → Body
  | .sign1 s => .sign1 s.payload s.signature
  | .mac0 s => .mac0 s.payload s.tag
  | .cwt s => .cwt s.payload s.originalPayloadBytes s.signature s.tag

def nodeOf (v : Structure) (ref : ℕ) : Node := ⟨ref, unprotectedHeadersOf v, bodyOf v⟩

def add (s : State) (v : Structure) : State :=
  (s.addHeaders v.protectedHeaders).addNode (nodeOf v s.headers.length)

def markModified (s : State) (ref : ℕ) : State :=
  { s with headers := s.headers.modify ref fun h => { h with originalEncodedStructure := none } }

def changeEntries (s : State) (ref : ℕ) (change : TypedMap → TypedMap) : State :=
  { s with maps := s.maps.modify ref fun m => { m with entries := change m.entries } }

/-- The map of some headers is changed, and its callback is called. -/
def changeMap (s : State) (ref : ℕ) (change : TypedMap → TypedMap) : State :=
  match s.headers[ref]? with
  | none => s
  | some h =>
    match s.maps[h.map]?.bind MapObject.onChange with
    | none => s.changeEntries h.map change
    | some ref => (s.changeEntries h.map change).markModified ref

def changeInPlace (s : State) (ref : ℕ) (change : TypedMap → TypedMap) : State :=
  match s.headers[ref]? with
  | none => s
  | some h => (s.changeEntries h.map change).markModified ref

def entriesOf (s : State) (ref : ℕ) : Option TypedMap :=
  (s.loadHeaders ref).map ProtectedHeaders.headers

def changeBody (s : State) (i : ℕ) (change : Body → Body) : State :=
  { s with nodes := s.nodes.modify i fun n => { n with body := change n.body } }

end State

/-! ## Operations -/

inductive Op
  | decode (kind : Kind) (token : Bytes)
  | reencode (i : ℕ) (kind : Kind)
  | asSign1 (i : ℕ)
  | asMac0 (i : ℕ)
  | setHeader (i : ℕ) (key value : Item)
  | deleteHeader (i : ℕ) (key : Item)
  /-- Header values are changed in place, and the headers are marked. -/
  | markModified (i : ℕ) (change : TypedMap → TypedMap)
  | assignPayload (i : ℕ) (payload : CwtPayload)
  /-- The claims set is changed in place, and the payload is marked. -/
  | markPayloadModified (i : ℕ) (change : TypedMap → TypedMap)

/-- An entry of a map is removed. -/
def deleteEntry (key : Item) (m : TypedMap) : TypedMap :=
  ⟨m.entries.filter fun e => e.1 ≠ key, m.nodup.sublist (List.filter_sublist.map Prod.fst)⟩

/-- A claims set is assigned, or changed in place; both drop the bytes of the payload. -/
def changePayload (change : CwtPayload → CwtPayload) : Body → Body
  | .cwt payload _ signature tag => .cwt (change payload) none signature tag
  | body => body

namespace State

def addDecoded (s : State) (decoded : Except CoseError Structure) : State :=
  match decoded with
  | .ok v => s.add v
  | .error _ => s

/-- A structure that shares the headers of another. -/
def addSharing (s : State) (i : ℕ) (converted : Except CoseError Structure) : State :=
  match s.nodes[i]?, converted with
  | some n, .ok v => s.addNode (nodeOf v n.headers)
  | _, _ => s

def reencoded (s : State) (i : ℕ) (kind : Kind) : Except CoseError Structure :=
  match s.view i with
  | some v => do decodeAs codec base kind (← v.encode codec)
  | none => .error (.error "undefined")

def signed (s : State) (i : ℕ) : Except CoseError Structure :=
  match s.view i with
  | some (.cwt cwt) => Structure.sign1 <$> cwt.asSign1 codec
  | _ => .error (.error "asSign1 is undefined")

def authenticated (s : State) (i : ℕ) : Except CoseError Structure :=
  match s.view i with
  | some (.cwt cwt) => Structure.mac0 <$> cwt.asMac0 codec
  | _ => .error (.error "asMac0 is undefined")

def onHeaders (s : State) (i : ℕ) (f : ℕ → State) : State :=
  match s.nodes[i]? with
  | some n => f n.headers
  | none => s

def step (s : State) : Op → State
  | .decode kind token => s.addDecoded (decodeAs codec base kind token)
  | .reencode i kind => s.addDecoded (s.reencoded codec base i kind)
  | .asSign1 i => s.addSharing i (s.signed codec i)
  | .asMac0 i => s.addSharing i (s.authenticated codec i)
  | .setHeader i key value => s.onHeaders i fun ref => s.changeMap ref fun m => m.set key value
  | .deleteHeader i key => s.onHeaders i fun ref =>
    if (s.entriesOf ref).any fun m => (m.get key).isSome then
      s.changeMap ref (deleteEntry key)
    else s
  | .markModified i change => s.onHeaders i fun ref => s.changeInPlace ref change
  | .assignPayload i payload => s.changeBody i (changePayload fun _ => payload)
  | .markPayloadModified i change =>
    s.changeBody i (changePayload fun payload => { payload with claims := change payload.claims })

end State

/-! ## What was received -/

/-- The bytes that the parts of a structure were received as, and whether a part was modified
since. -/
structure Provenance where
  protectedReceived : Bytes
  protectedModified : Bool := false
  payloadReceived : Option Bytes
  payloadModified : Bool := false

namespace Structure

/-- The received headers, or the header map as it is now. -/
def expectedProtected (v : Structure) (p : Provenance) : Except CoseError Bytes :=
  if p.protectedModified then
    ProtectedHeaders.encodeHeaders codec v.protectedHeaders.schema v.protectedHeaders.headers
  else .ok p.protectedReceived

/-- The received payload, or the claims set as it is now. -/
def expectedPayload (v : Structure) (p : Provenance) : Except CoseError (Option Bytes) :=
  match v, p.payloadModified with
  | cwt s, true => some <$> s.payload.encode codec
  | _, _ => .ok p.payloadReceived

/-- A structure that is decoded from what another one is written as. -/
def rewritten (v : Structure) (p : Provenance) : Provenance where
  protectedReceived := (v.expectedProtected codec p).toOption.getD []
  payloadReceived := (v.expectedPayload codec p).toOption.getD none

/-- A structure with the headers of another and the payload that this one has now. -/
def converted (v : Structure) (p : Provenance) : Provenance :=
  { p with
    payloadReceived := (v.expectedPayload codec p).toOption.getD none, payloadModified := false }

end Structure

structure Tracked where
  state : State := {}
  provenance : List Provenance := []

namespace Tracked

/-- The headers of a structure, which others may share, are modified. -/
def markShared (t : Tracked) (i : ℕ) : List Provenance :=
  t.provenance.mapIdx fun j p =>
    if (t.state.nodes[j]?.map Node.headers) = t.state.nodes[i]?.map Node.headers then
      { p with protectedModified := true }
    else p

/-- What becomes of the provenance of a structure in that of another. -/
def derived (t : Tracked) (i : ℕ) (f : Structure → Provenance → Provenance) : List Provenance :=
  match t.state.view i, t.provenance[i]? with
  | some v, some p => [f v p]
  | _, _ => []

/-- The provenance of a structure that an operation makes. -/
def made (t : Tracked) : Op → List Provenance
  | .decode _ token => ((receivedParts codec token).map fun parts =>
    ({ protectedReceived := parts.1, payloadReceived := parts.2 } : Provenance)).toList
  | .reencode i _ => t.derived i (Structure.rewritten codec)
  | .asSign1 i | .asMac0 i => t.derived i (Structure.converted codec)
  | _ => []

/-- What an operation modifies of the structures that there are. -/
def modified (t : Tracked) : Op → List Provenance
  | .setHeader i _ _ | .markModified i _ => t.markShared i
  | .deleteHeader i key =>
    if (t.state.view i).any fun v => (v.protectedHeaders.headers.get key).isSome then t.markShared i
    else t.provenance
  | .assignPayload i _ | .markPayloadModified i _ => t.provenance.modify i fun p =>
      { p with payloadModified := true }
  | _ => t.provenance

def step (t : Tracked) (op : Op) : Tracked where
  state := t.state.step codec base op
  provenance :=
    if t.state.nodes.length < (t.state.step codec base op).nodes.length then
      t.modified op ++ t.made codec op
    else t.modified op

end Tracked

/-! ## The invariant -/

variable {codec base}

/-- Headers whose map calls back to them, and whose bytes are the received ones or dropped. -/
def HeadersOk (s : State) (ref : ℕ) (p : Provenance) : Prop :=
  ∃ h m, s.headers[ref]? = some h ∧ s.maps[h.map]? = some m ∧ m.onChange = some ref ∧
    h.originalEncodedStructure = if p.protectedModified then none else some p.protectedReceived

def PayloadOk : Body → Provenance → Prop
  | .sign1 payload _, p => payload = p.payloadReceived
  | .mac0 payload _, p => payload = p.payloadReceived
  | .cwt _ original _ _, p => original = (if p.payloadModified then none else p.payloadReceived) ∧
    (p.payloadModified = false → p.payloadReceived.isSome)

structure Inv (t : Tracked) : Prop where
  length : t.provenance.length = t.state.nodes.length
  headers : ∀ (i : ℕ) (n : Node) (p : Provenance),
    t.state.nodes[i]? = some n → t.provenance[i]? = some p → HeadersOk t.state n.headers p
  payload : ∀ (i : ℕ) (n : Node) (p : Provenance), t.state.nodes[i]? = some n →
    t.provenance[i]? = some p → PayloadOk n.body p

theorem getElem?_concat {α : Type} {l : List α} {a x : α} {i : ℕ} (h : (l ++ [a])[i]? = some x) :
    l[i]? = some x ∨ (i = l.length ∧ x = a) := by
  rw [List.getElem?_append] at h
  split_ifs at h with hi
  · exact Or.inl h
  · have hi : i - l.length = 0 := by
      by_contra hne
      rw [List.getElem?_eq_none (by rw [List.length_singleton]; omega)] at h
      cases h
    rw [hi] at h
    exact Or.inr ⟨by omega, (Option.some.inj h).symm⟩

theorem getElem?_append_of_some {α : Type} {l l' : List α} {x : α} {i : ℕ} (h : l[i]? = some x) :
    (l ++ l')[i]? = some x := by
  rw [List.getElem?_append_left (List.getElem?_eq_some_iff.mp h).1, h]

/-! ### Headers -/

theorem HeadersOk.addHeaders {s : State} {ref : ℕ} {p : Provenance} (h : HeadersOk s ref p)
    (ph : ProtectedHeaders) :
    HeadersOk (s.addHeaders ph) ref p := by
  obtain ⟨ho, m, hh, hm, hcall, horiginal⟩ := h
  exact ⟨ho, m, getElem?_append_of_some hh, getElem?_append_of_some hm, hcall, horiginal⟩

/-- New headers refer to a new map, which calls back to them. -/
theorem headersOk_addHeaders {s : State} {ph : ProtectedHeaders} {p : Provenance}
    (hmodified : p.protectedModified = false)
    (horiginal : ph.originalEncodedStructure = some p.protectedReceived) :
    HeadersOk (s.addHeaders ph) s.headers.length p := by
  refine ⟨_, _, List.getElem?_concat_length, List.getElem?_concat_length, rfl, ?_⟩
  rw [hmodified, if_neg (by decide)]
  exact horiginal

theorem HeadersOk.congr {s s' : State} {ref : ℕ} {p : Provenance} (h : HeadersOk s ref p)
    (hmaps : s'.maps = s.maps) (hheaders : s'.headers = s.headers) : HeadersOk s' ref p := by
  unfold HeadersOk
  rw [hmaps, hheaders]
  exact h

theorem HeadersOk.not_modified {s : State} {ref : ℕ} {p q : Provenance} (h : HeadersOk s ref p)
    (hmodified : q.protectedModified = p.protectedModified)
    (hreceived : q.protectedReceived = p.protectedReceived) :
    HeadersOk s ref q := by
  unfold HeadersOk
  rw [hmodified, hreceived]
  exact h

/-- The map of some headers changes and the headers are marked: what a set, a delete or a mark
does. -/
def State.changeAndMark (s : State) (ref map : ℕ) (change : TypedMap → TypedMap) : State :=
  (s.changeEntries map change).markModified ref

theorem HeadersOk.changeAndMark_self {s : State} {ref : ℕ} {p : Provenance} (h : HeadersOk s ref p)
    {ho : HeadersObject} (hh : s.headers[ref]? = some ho) (change : TypedMap → TypedMap) :
    HeadersOk (s.changeAndMark ref ho.map change) ref { p with protectedModified := true } := by
  obtain ⟨ho', m, hh', hm, hcall, -⟩ := h
  obtain rfl : ho' = ho := Option.some.inj (hh'.symm.trans hh)
  refine ⟨{ ho' with originalEncodedStructure := none },
    { m with entries := change m.entries }, ?_, ?_, hcall, rfl⟩
  · exact (List.getElem?_modify_eq ..).trans (congrArg _ hh)
  · exact (List.getElem?_modify_eq ..).trans (congrArg _ hm)

/-- Other headers have another map, since a map calls back to one headers object only. -/
theorem HeadersOk.changeAndMark_of_ne {s : State} {ref k : ℕ} {p q : Provenance}
    (h : HeadersOk s ref p) (hk : HeadersOk s k q) (hne : ref ≠ k) {ho : HeadersObject}
    (hh : s.headers[ref]? = some ho) (change : TypedMap → TypedMap) :
    HeadersOk (s.changeAndMark ref ho.map change) k q := by
  obtain ⟨ho', m, hh', hm, hcall, -⟩ := h
  obtain rfl : ho' = ho := Option.some.inj (hh'.symm.trans hh)
  obtain ⟨hk, mk, hhk, hmk, hcallk, horiginal⟩ := hk
  have hmap : ho'.map ≠ hk.map := by
    intro heq
    rw [← heq, hm] at hmk
    obtain rfl := Option.some.inj hmk
    exact hne (Option.some.inj (hcall.symm.trans hcallk))
  refine ⟨hk, mk, ?_, ?_, hcallk, horiginal⟩
  · exact (List.getElem?_modify_ne _ _ hne).trans hhk
  · exact (List.getElem?_modify_ne _ _ hmap).trans hmk

theorem HeadersOk.changeMap_eq {s : State} {ref : ℕ} {p : Provenance} (h : HeadersOk s ref p)
    (change : TypedMap → TypedMap) :
    ∃ ho, s.headers[ref]? = some ho ∧
    s.changeMap ref change = s.changeAndMark ref ho.map change := by
  obtain ⟨ho, m, hh, hm, hcall, -⟩ := h
  refine ⟨ho, hh, ?_⟩
  rw [State.changeMap, hh]
  dsimp only
  rw [hm, Option.bind_some, hcall]
  rfl

theorem HeadersOk.changeInPlace_eq {s : State} {ref : ℕ} {p : Provenance} (h : HeadersOk s ref p)
    (change : TypedMap → TypedMap) :
    ∃ ho, s.headers[ref]? = some ho ∧ s.changeInPlace ref change =
      s.changeAndMark ref ho.map change := by
  obtain ⟨ho, m, hh, -, -, -⟩ := h
  refine ⟨ho, hh, ?_⟩
  rw [State.changeInPlace, hh]
  rfl

/-! ### Structures -/

theorem Inv.exists_provenance {t : Tracked} (h : Inv t) {i : ℕ} {n : Node}
    (hn : t.state.nodes[i]? = some n) :
    ∃ p, t.provenance[i]? = some p := by
  have hlt := (List.getElem?_eq_some_iff.mp hn).1
  rw [← h.length] at hlt
  exact ⟨_, List.getElem?_eq_getElem hlt⟩

/-- A structure is added, whose parts are as its provenance says. -/
theorem Inv.push {t : Tracked} (h : Inv t) {s : State} {n : Node} {p : Provenance}
    (hkeep : ∀ ref q, HeadersOk t.state ref q → HeadersOk s ref q)
    (hheaders : HeadersOk s n.headers p) (hpayload : PayloadOk n.body p)
    (hnodes : s.nodes = t.state.nodes ++ [n]) : Inv ⟨s, t.provenance ++ [p]⟩ := by
  have hcase (i : ℕ) (n' : Node) (q : Provenance) (hn : s.nodes[i]? = some n')
      (hq : (t.provenance ++ [p])[i]? = some q) :
      (t.state.nodes[i]? = some n' ∧ t.provenance[i]? = some q) ∨ (n' = n ∧ q = p) := by
    rw [hnodes] at hn
    rcases getElem?_concat hn with hn | ⟨hi, rfl⟩ <;> rcases getElem?_concat hq with hq | ⟨hi', rfl⟩
    · exact Or.inl ⟨hn, hq⟩
    · have hlt := (List.getElem?_eq_some_iff.mp hn).1
      rw [hi', h.length] at hlt
      exact absurd hlt (lt_irrefl _)
    · have hlt := (List.getElem?_eq_some_iff.mp hq).1
      rw [hi, h.length] at hlt
      exact absurd hlt (lt_irrefl _)
    · exact Or.inr ⟨rfl, rfl⟩
  refine ⟨?_, ?_, ?_⟩
  · rw [List.length_append, h.length, hnodes, List.length_append]
    rfl
  · intro i n' q hn hq
    rcases hcase i n' q hn hq with ⟨hn, hq⟩ | ⟨rfl, rfl⟩
    · exact hkeep _ _ (h.headers i n' q hn hq)
    · exact hheaders
  · intro i n' q hn hq
    rcases hcase i n' q hn hq with ⟨hn, hq⟩ | ⟨rfl, rfl⟩
    · exact h.payload i n' q hn hq
    · exact hpayload

/-- The headers of a structure are marked, and with them those of the structures that share them. -/
theorem Inv.markShared {t : Tracked} (h : Inv t) {i : ℕ} {n : Node}
    (hn : t.state.nodes[i]? = some n) {ho : HeadersObject}
    (hh : t.state.headers[n.headers]? = some ho) (change : TypedMap → TypedMap) :
    Inv ⟨t.state.changeAndMark n.headers ho.map change, t.markShared i⟩ := by
  have hcase (j : ℕ) (n' : Node) (q : Provenance) (hn' : t.state.nodes[j]? = some n')
      (hq : (t.markShared i)[j]? = some q) :
      ∃ p, t.provenance[j]? = some p ∧ q = if n'.headers = n.headers then
        { p with protectedModified := true } else p := by
    rw [Tracked.markShared, List.getElem?_mapIdx] at hq
    obtain ⟨p, hp, rfl⟩ := Option.map_eq_some_iff.mp hq
    refine ⟨p, hp, ?_⟩
    rw [hn', hn]
    simp only [Option.map_some, Option.some.injEq]
  refine ⟨?_, ?_, ?_⟩
  · exact (List.length_mapIdx ..).trans h.length
  · intro j n' q hn' hq
    obtain ⟨p, hp, rfl⟩ := hcase j n' q hn' hq
    have hj := h.headers j n' p hn' hp
    split_ifs with heq
    · rw [heq] at hj ⊢
      exact hj.changeAndMark_self hh change
    · obtain ⟨p', hp'⟩ := h.exists_provenance hn
      exact (h.headers i n p' hn hp').changeAndMark_of_ne hj (fun heq' => heq heq'.symm) hh change
  · intro j n' q hn' hq
    obtain ⟨p, hp, rfl⟩ := hcase j n' q hn' hq
    have hj := h.payload j n' p hn' hp
    have hsame (p' : Provenance) (hreceived : p'.payloadReceived = p.payloadReceived)
        (hmodified : p'.payloadModified = p.payloadModified) : PayloadOk n'.body p' := by
      cases hbody : n'.body <;> rw [hbody] at hj <;>
        simpa only [PayloadOk, hreceived, hmodified] using hj
    split_ifs
    · exact hsame _ rfl rfl
    · exact hj

theorem Inv.changeBody {t : Tracked} (h : Inv t) (i : ℕ) (change : CwtPayload → CwtPayload) :
    Inv ⟨t.state.changeBody i (changePayload change),
      t.provenance.modify i fun p => { p with payloadModified := true }⟩ := by
  have hcase (j : ℕ) (n' : Node) (q : Provenance)
      (hn : (t.state.changeBody i (changePayload change)).nodes[j]? = some n')
      (hq : (t.provenance.modify i fun p => { p with payloadModified := true })[j]? = some q) :
      ∃ n p, t.state.nodes[j]? = some n ∧ t.provenance[j]? = some p ∧
        n' = (if i = j then { n with body := changePayload change n.body } else n) ∧
        q = if i = j then { p with payloadModified := true } else p := by
    rw [State.changeBody, List.getElem?_modify] at hn
    rw [List.getElem?_modify] at hq
    obtain ⟨n, hn₁, rfl⟩ := Option.map_eq_some_iff.mp hn
    obtain ⟨p, hp, rfl⟩ := Option.map_eq_some_iff.mp hq
    exact ⟨n, p, hn₁, hp, rfl, rfl⟩
  refine ⟨?_, ?_, ?_⟩
  · rw [List.length_modify, h.length, State.changeBody, List.length_modify]
  · intro j n' q hn hq
    obtain ⟨n, p, hn₁, hp, rfl, rfl⟩ := hcase j n' q hn hq
    have hj := h.headers j n p hn₁ hp
    split_ifs
    · exact (hj.not_modified rfl rfl).congr rfl rfl
    · exact hj.congr rfl rfl
  · intro j n' q hn hq
    obtain ⟨n, p, hn₁, hp, rfl, rfl⟩ := hcase j n' q hn hq
    have hj := h.payload j n p hn₁ hp
    split_ifs
    · cases hbody : n.body with
      | sign1 payload signature => rw [hbody] at hj; exact hj
      | mac0 payload tag => rw [hbody] at hj; exact hj
      | cwt payload original signature tag => exact ⟨rfl, nofun⟩
    · exact hj

/-! ### Views -/

theorem view_eq_some {s : State} {i : ℕ} {v : Structure} (h : s.view i = some v) :
    ∃ n ph, s.nodes[i]? = some n ∧ s.loadHeaders n.headers = some ph ∧ v.protectedHeaders = ph ∧
    n.body = State.bodyOf v := by
  obtain ⟨n, hn, h⟩ := Option.bind_eq_some_iff.mp h
  obtain ⟨ph, hph, h⟩ := Option.bind_eq_some_iff.mp h
  refine ⟨n, ph, hn, hph, ?_⟩
  cases hbody : n.body <;> simp only [hbody, Option.some.injEq] at h <;> subst h <;>
    exact ⟨rfl, rfl⟩

theorem HeadersOk.encodedStructure {s : State} {ref : ℕ} {p : Provenance} (h : HeadersOk s ref p)
    {v : Structure} (hload : s.loadHeaders ref = some v.protectedHeaders) :
    v.protectedHeaders.encodedStructure codec = v.expectedProtected codec p := by
  obtain ⟨ho, m, hh, hm, -, horiginal⟩ := h
  have hph : v.protectedHeaders =
      { schema := ho.schema, headers := m.entries,
        originalEncodedStructure := ho.originalEncodedStructure } := by
    rw [State.loadHeaders, hh] at hload
    change (s.maps[ho.map]?.bind fun m => _) = _ at hload
    rw [hm] at hload
    exact (Option.some.inj hload).symm
  rw [ProtectedHeaders.encodedStructure, Structure.expectedProtected, hph]
  dsimp only
  rw [horiginal]
  split_ifs <;> rfl

theorem PayloadOk.payloadBytes {v : Structure} {p : Provenance} (h : PayloadOk (State.bodyOf v) p) :
    v.payloadBytes codec = v.expectedPayload codec p := by
  cases v with
  | sign1 s => exact congrArg Except.ok h
  | mac0 s => exact congrArg Except.ok h
  | cwt s =>
    obtain ⟨horiginal, hsome⟩ := h
    unfold Structure.payloadBytes Structure.expectedPayload
    dsimp only
    rw [Cwt.payloadBytes, horiginal]
    cases hmodified : p.payloadModified with
    | true => rfl
    | false =>
      obtain ⟨b, hb⟩ := Option.isSome_iff_exists.mp (hsome hmodified)
      rw [hb]
      rfl

/-- A structure gives the bytes that its provenance says. -/
theorem Inv.view {t : Tracked} (h : Inv t) {i : ℕ} {v : Structure} (hv : t.state.view i = some v) :
    ∃ p, t.provenance[i]? = some p ∧ v.protectedHeaders.encodedStructure codec =
      v.expectedProtected codec p ∧
      v.payloadBytes codec = v.expectedPayload codec p := by
  obtain ⟨n, ph, hn, hload, rfl, hbody⟩ := view_eq_some hv
  obtain ⟨p, hp⟩ := h.exists_provenance hn
  have hpayload := h.payload i n p hn hp
  rw [hbody] at hpayload
  exact ⟨p, hp, (h.headers i n p hn hp).encodedStructure hload, hpayload.payloadBytes⟩

/-! ### Steps -/

theorem decodeAs_eq_ok {kind : Kind} {token : Bytes} {v : Structure}
    (h : decodeAs codec base kind token = .ok v) :
    ∃ parts, receivedParts codec token = some parts ∧
      v.protectedHeaders.originalEncodedStructure = some parts.1 ∧
      PayloadOk (State.bodyOf v) { protectedReceived := parts.1, payloadReceived := parts.2 } := by
  cases kind with
  | sign1 subclass =>
    obtain ⟨sign1, hsign1, rfl⟩ := map_eq_ok.mp h
    obtain ⟨parts, hparts, horiginal, hpayload⟩ := Sign1.decode_eq_ok hsign1
    exact ⟨parts, hparts, horiginal, hpayload⟩
  | mac0 subclass =>
    obtain ⟨mac0, hmac0, rfl⟩ := map_eq_ok.mp h
    obtain ⟨parts, hparts, horiginal, hpayload⟩ := Mac0.decode_eq_ok hmac0
    exact ⟨parts, hparts, horiginal, hpayload⟩
  | cwt structures =>
    obtain ⟨cwt, hcwt, rfl⟩ := map_eq_ok.mp h
    obtain ⟨parts, hparts, ⟨horiginal, hpayload⟩, hsome⟩ := Cwt.fromToken_eq_ok hcwt
    exact ⟨parts, hparts, horiginal, hpayload, fun _ => hpayload ▸ hsome⟩

/-- The parts of a structure that is written. -/
theorem receivedParts_encode {v : Structure} {token : Bytes} (h : v.encode codec = .ok token) :
    ∃ b payload, v.protectedHeaders.encodedStructure codec = .ok b ∧
    v.payloadBytes codec = .ok payload ∧
      receivedParts codec token = some (b, payload) := by
  cases v with
  | sign1 s =>
    obtain ⟨b, hb, hparts⟩ := Sign1.receivedParts_encode h
    exact ⟨b, _, hb, rfl, hparts⟩
  | mac0 s =>
    obtain ⟨b, hb, hparts⟩ := Mac0.receivedParts_encode h
    exact ⟨b, _, hb, rfl, hparts⟩
  | cwt s => cases h

/-- A decoded structure is added with headers of its own. -/
theorem Inv.add {t : Tracked} (h : Inv t) {v : Structure} {p : Provenance}
    (horiginal : v.protectedHeaders.originalEncodedStructure = some p.protectedReceived)
    (hmodified : p.protectedModified = false) (hpayload : PayloadOk (State.bodyOf v) p) :
    Inv ⟨t.state.add v, t.provenance ++ [p]⟩ :=
  @Inv.push _ h _ (State.nodeOf v t.state.headers.length) p
    (fun _ _ hok => (hok.addHeaders v.protectedHeaders).congr rfl rfl)
    ((headersOk_addHeaders hmodified horiginal).congr rfl rfl) hpayload rfl

/-- A structure that shares the headers of another has its provenance. -/
theorem Inv.addSharing {t : Tracked} (h : Inv t) {i : ℕ} {n : Node} {p q : Provenance}
    {v : Structure} (hn : t.state.nodes[i]? = some n) (hp : t.provenance[i]? = some p)
    (hmodified : q.protectedModified = p.protectedModified)
    (hreceived : q.protectedReceived = p.protectedReceived)
    (hpayload : PayloadOk (State.bodyOf v) q) :
    Inv ⟨t.state.addNode (State.nodeOf v n.headers), t.provenance ++ [q]⟩ :=
  @Inv.push _ h _ (State.nodeOf v n.headers) q (fun _ _ hok => hok.congr rfl rfl)
    (((h.headers i n p hn hp).not_modified hmodified hreceived).congr rfl rfl) hpayload rfl

theorem Tracked.step_of_length {t : Tracked} {op : Op} {s : State}
    (hstep : t.state.step codec base op = s) (hlength : s.nodes.length = t.state.nodes.length) :
    t.step codec base op = ⟨s, t.modified op⟩ := by
  rw [step, hstep, if_neg (by rw [hlength]; exact lt_irrefl _)]

theorem Tracked.step_of_push {t : Tracked} {op : Op} {s : State} {n : Node}
    (hstep : t.state.step codec base op = s) (hnodes : s.nodes = t.state.nodes ++ [n]) :
    t.step codec base op = ⟨s, t.modified op ++ t.made codec op⟩ := by
  have hlt : t.state.nodes.length < s.nodes.length := by
    rw [hnodes, List.length_append, List.length_singleton]
    exact Nat.lt_succ_self _
  rw [step, hstep, if_pos hlt]

/-- What an operation that makes a structure does to the invariant. -/
theorem Inv.addDecoded {t : Tracked} (h : Inv t) {op : Op} {decoded : Except CoseError Structure}
    (hstep : t.state.step codec base op = t.state.addDecoded decoded)
    (hmodified : t.modified op = t.provenance)
    (hmade : ∀ v, decoded = .ok v → ∃ p, t.made codec op = [p] ∧
      v.protectedHeaders.originalEncodedStructure = some p.protectedReceived ∧
        p.protectedModified = false ∧
      PayloadOk (State.bodyOf v) p) : Inv (t.step codec base op) := by
  cases decoded with
  | error e =>
    rw [Tracked.step_of_length hstep rfl, hmodified]
    exact h
  | ok v =>
    obtain ⟨p, hp, horiginal, hunmodified, hpayload⟩ := hmade v rfl
    rw [Tracked.step_of_push hstep rfl, hmodified, hp]
    exact h.add horiginal hunmodified hpayload

theorem Inv.converted {t : Tracked} (h : Inv t) {op : Op} {i : ℕ}
    {result : Except CoseError Structure}
    (hstep : t.state.step codec base op = t.state.addSharing i result)
    (hmodified : t.modified op = t.provenance)
    (hmade : t.made codec op = t.derived i (Structure.converted codec))
    (hresult : ∀ v, result = .ok v → ∃ cwt payload, t.state.view i = some (.cwt cwt) ∧
      (Structure.cwt cwt).payloadBytes codec = .ok payload ∧ ∀ q, q.payloadReceived = payload →
        PayloadOk (State.bodyOf v) q) :
    Inv (t.step codec base op) := by
  cases hr : result with
  | error e =>
    have hsame : t.state.addSharing i (.error e) = t.state := by
      unfold State.addSharing
      split
      · next heq => cases heq
      · rfl
    rw [hr, hsame] at hstep
    rw [Tracked.step_of_length hstep rfl, hmodified]
    exact h
  | ok v =>
    obtain ⟨cwt, payload, hview, hbytes, hpayload⟩ := hresult v hr
    obtain ⟨n, ph, hn, -, -, -⟩ := view_eq_some hview
    obtain ⟨p, hp, -, hexpected⟩ := @Inv.view codec _ h _ _ hview
    have hadd : t.state.addSharing i (.ok v) = t.state.addNode (State.nodeOf v n.headers) := by
      unfold State.addSharing
      rw [hn]
    rw [hr, hadd] at hstep
    rw [Tracked.step_of_push hstep rfl, hmodified, hmade, Tracked.derived, hview, hp]
    refine h.addSharing hn hp rfl rfl (hpayload _ ?_)
    dsimp only [Structure.converted]
    rw [← hexpected, hbytes]
    rfl

/-- A structure is reencoded with the bytes that its provenance says, and decoded from them. -/
theorem Inv.made_reencode {t : Tracked} (h : Inv t) {i : ℕ} {kind : Kind} {v : Structure}
    (hv : t.state.reencoded codec base i kind = .ok v) :
    ∃ p, t.made codec (.reencode i kind) = [p] ∧
      v.protectedHeaders.originalEncodedStructure = some p.protectedReceived ∧
      p.protectedModified = false ∧
      PayloadOk (State.bodyOf v) p := by
  rw [State.reencoded] at hv
  split at hv
  · next w hw =>
    obtain ⟨token, htoken, hv⟩ := bind_eq_ok.mp hv
    obtain ⟨b, payload, hb, hpayload, hparts⟩ := receivedParts_encode htoken
    obtain ⟨parts, hparts', horiginal, hok⟩ := decodeAs_eq_ok hv
    obtain rfl := Option.some.inj (hparts.symm.trans hparts')
    obtain ⟨p, hp, hheaders, hbytes⟩ := @Inv.view codec _ h _ _ hw
    have hrewritten : w.rewritten codec p =
        { protectedReceived := b, payloadReceived := payload } := by
      rw [Structure.rewritten, ← hheaders, ← hbytes, hb, hpayload]
      rfl
    refine ⟨w.rewritten codec p, ?_, ?_, rfl, ?_⟩
    · change t.derived i (Structure.rewritten codec) = _
      rw [Tracked.derived, hw, hp]
    · rw [hrewritten]
      exact horiginal
    · rw [hrewritten]
      exact hok
  · cases hv

theorem signed_eq_ok {s : State} {i : ℕ} {v : Structure} (h : s.signed codec i = .ok v) :
    ∃ cwt payload, s.view i = some (.cwt cwt) ∧
    (Structure.cwt cwt).payloadBytes codec = .ok payload ∧
      ∀ q, q.payloadReceived = payload → PayloadOk (State.bodyOf v) q := by
  rw [State.signed] at h
  split at h
  · next cwt hview =>
    obtain ⟨sign1, hsign1, rfl⟩ := map_eq_ok.mp h
    obtain ⟨payload, hpayload, hsign1⟩ := bind_eq_ok.mp hsign1
    cases hsign1
    exact ⟨cwt, some payload, hview, map_eq_ok.mpr ⟨payload, hpayload, rfl⟩, fun _ hq => hq.symm⟩
  · cases h

theorem authenticated_eq_ok {s : State} {i : ℕ} {v : Structure}
    (h : s.authenticated codec i = .ok v) :
    ∃ cwt payload, s.view i = some (.cwt cwt) ∧
    (Structure.cwt cwt).payloadBytes codec = .ok payload ∧
      ∀ q, q.payloadReceived = payload → PayloadOk (State.bodyOf v) q := by
  rw [State.authenticated] at h
  split at h
  · next cwt hview =>
    obtain ⟨mac0, hmac0, rfl⟩ := map_eq_ok.mp h
    obtain ⟨payload, hpayload, hmac0⟩ := bind_eq_ok.mp hmac0
    cases hmac0
    exact ⟨cwt, some payload, hview, map_eq_ok.mpr ⟨payload, hpayload, rfl⟩, fun _ hq => hq.symm⟩
  · cases h

/-- Headers are changed through the map or in place. -/
theorem Inv.onHeaders {t : Tracked} (h : Inv t) {op : Op} {i : ℕ} {f : ℕ → State}
    (hstep : t.state.step codec base op = t.state.onHeaders i f)
    (hmodified : t.modified op = t.markShared i) (hf : ∀ ref p, HeadersOk t.state ref p →
      ∃ ho change, t.state.headers[ref]? = some ho ∧
        f ref = t.state.changeAndMark ref ho.map change) :
    Inv (t.step codec base op) := by
  cases hn : t.state.nodes[i]? with
  | none =>
    rw [State.onHeaders, hn] at hstep
    rw [Tracked.step_of_length hstep rfl, hmodified, Tracked.markShared]
    -- No structure has the headers of one that does not exist.
    have hsame : (t.provenance.mapIdx fun j p => if (t.state.nodes[j]?.map Node.headers) =
        t.state.nodes[i]?.map Node.headers
        then { p with protectedModified := true } else p) = t.provenance := by
      apply List.ext_getElem?
      intro j
      rw [List.getElem?_mapIdx, hn]
      cases hp : t.provenance[j]? with
      | none => rfl
      | some p =>
        have hlt := (List.getElem?_eq_some_iff.mp hp).1
        rw [h.length] at hlt
        rw [List.getElem?_eq_getElem hlt]
        rfl
    rw [hsame]
    exact h
  | some n =>
    obtain ⟨p, hp⟩ := h.exists_provenance hn
    obtain ⟨ho, change, hh, hchange⟩ := hf _ _ (h.headers i n p hn hp)
    rw [State.onHeaders, hn] at hstep
    dsimp only at hstep
    rw [hchange] at hstep
    rw [Tracked.step_of_length hstep rfl, hmodified]
    exact h.markShared hn hh change

theorem view_headers {s : State} {i : ℕ} {n : Node} (hn : s.nodes[i]? = some n) :
    (s.view i).map Structure.protectedHeaders = s.loadHeaders n.headers := by
  rw [State.view, hn]
  change ((s.loadHeaders n.headers).bind fun _ => _).map _ = _
  cases s.loadHeaders n.headers with
  | none => rfl
  | some ph => cases hbody : n.body <;> rfl

theorem Inv.deleteHeader {t : Tracked} (h : Inv t) (i : ℕ) (key : Item) :
    Inv (t.step codec base (.deleteHeader i key)) := by
  have hpresent (n : Node) (hn : t.state.nodes[i]? = some n) :
      ((t.state.entriesOf n.headers).any fun m => (m.get key).isSome) =
        (t.state.view i).any fun v => (v.protectedHeaders.headers.get key).isSome := by
    rw [State.entriesOf, ← view_headers hn]
    cases t.state.view i <;> rfl
  cases hkey : (t.state.view i).any fun v => (v.protectedHeaders.headers.get key).isSome with
  | true =>
    have hmodified : t.modified (.deleteHeader i key) = t.markShared i := if_pos hkey
    have hstep : t.state.step codec base (.deleteHeader i key) =
        t.state.onHeaders i fun ref => t.state.changeMap ref (deleteEntry key) := by
      rw [State.step, State.onHeaders, State.onHeaders]
      split
      · next n hn => rw [hpresent n hn, hkey, if_pos rfl]
      · rfl
    refine h.onHeaders hstep hmodified fun ref p hok => ?_
    obtain ⟨ho, hh, heq⟩ := hok.changeMap_eq (deleteEntry key)
    exact ⟨ho, _, hh, heq⟩
  | false =>
    have hmodified : t.modified (.deleteHeader i key) = t.provenance :=
      if_neg (by rw [hkey]; decide)
    have hstep : t.state.step codec base (.deleteHeader i key) = t.state := by
      rw [State.step, State.onHeaders]
      split
      · next n hn => rw [hpresent n hn, hkey, if_neg (by decide)]
      · rfl
    rw [Tracked.step_of_length hstep rfl, hmodified]
    exact h

theorem Inv.step {t : Tracked} (h : Inv t) (op : Op) : Inv (t.step codec base op) := by
  cases op with
  | decode kind token =>
    refine h.addDecoded rfl rfl fun v hv => ?_
    obtain ⟨parts, hparts, horiginal, hpayload⟩ := decodeAs_eq_ok hv
    refine ⟨_, ?_, horiginal, rfl, hpayload⟩
    rw [Tracked.made, hparts]
    rfl
  | reencode i kind => exact h.addDecoded rfl rfl fun v hv => h.made_reencode hv
  | asSign1 i => exact h.converted rfl rfl rfl fun v hv => signed_eq_ok hv
  | asMac0 i => exact h.converted rfl rfl rfl fun v hv => authenticated_eq_ok hv
  | setHeader i key value =>
    refine h.onHeaders (f := fun ref => t.state.changeMap ref fun m => m.set key value) rfl rfl
      fun ref p hok => ?_
    obtain ⟨ho, hh, heq⟩ := hok.changeMap_eq fun m => m.set key value
    exact ⟨ho, _, hh, heq⟩
  | deleteHeader i key => exact h.deleteHeader i key
  | markModified i change =>
    refine h.onHeaders (f := fun ref => t.state.changeInPlace ref change) rfl rfl
      fun ref p hok => ?_
    obtain ⟨ho, hh, heq⟩ := hok.changeInPlace_eq change
    exact ⟨ho, _, hh, heq⟩
  | assignPayload i payload =>
    have hlength : (t.state.step codec base (.assignPayload i payload)).nodes.length =
        t.state.nodes.length :=
      List.length_modify ..
    rw [Tracked.step_of_length rfl hlength]
    exact h.changeBody i _
  | markPayloadModified i change =>
    have hlength : (t.state.step codec base (.markPayloadModified i change)).nodes.length =
        t.state.nodes.length :=
      List.length_modify ..
    rw [Tracked.step_of_length rfl hlength]
    exact h.changeBody i _

theorem inv_run (ops : List Op) : Inv (run (Tracked.step codec base) {} ops) :=
  @invariant_run _ _ _ Inv (fun _ op h => h.step op) {} ⟨rfl, nofun, nofun⟩ ops

/-! ## The bytes of a structure -/

namespace Structure

/-- The COSE_Sign1 whose signature is verified. -/
def asSign1 (codec : Codec) : Structure → Except CoseError Sign1
  | sign1 s => .ok s
  | mac0 _ => .error (.error "verifySignature is not a function")
  | cwt s => s.asSign1 codec

/-- The COSE_Mac0 whose authentication tag is verified. -/
def asMac0 (codec : Codec) : Structure → Except CoseError Mac0
  | sign1 _ => .error (.error "verifyAuthenticationCode is not a function")
  | mac0 s => .ok s
  | cwt s => s.asMac0 codec

/-- A payload that is embedded, or that is given to the operation. -/
def IsPayload (codec : Codec) (v : Structure) (p : Provenance) (options : Supplied)
    (payload : Bytes) : Prop :=
  v.expectedPayload codec p = .ok (some payload) ∨
    (v.expectedPayload codec p = .ok none ∧ options.detachedPayload = some payload)

/-- What a structure hands to the callbacks that verify it, and what it writes. -/
structure Gives (codec : Codec) (v : Structure) (p : Provenance) : Prop where
  verified : ∀ (sign1 : Sign1) (key : CoseKey) (options : Supplied) (request : Sign1.VerifyRequest),
    v.asSign1 codec = .ok sign1 → sign1.verifyRequest codec key options = .ok request →
    ∃ b payload, v.expectedProtected codec p = .ok b ∧ v.IsPayload codec p options payload ∧
      request.toBeVerified = codec.encode (sigStructure b (options.externalAad.getD []) payload)
  authenticated : ∀ (mac0 : Mac0) (key : CoseKey) (options : Supplied)
    (request : Mac0.VerifyRequest),
    v.asMac0 codec = .ok mac0 → mac0.verifyRequest codec key options = .ok request →
    ∃ b payload, v.expectedProtected codec p = .ok b ∧ v.IsPayload codec p options payload ∧
      request.toBeAuthenticated = codec.encode (.array
        ([.text "MAC0", .bytes b] ++ (options.externalAad.map Item.bytes).toList ++
          [.bytes payload]))
  written : ∀ (token : Bytes), v.encode codec = .ok token →
    ∃ b payload, v.expectedProtected codec p = .ok b ∧ v.expectedPayload codec p = .ok payload ∧
      receivedParts codec token = some (b, payload)

theorem asSign1_eq_ok {v : Structure} {s : Sign1} (h : v.asSign1 codec = .ok s) :
    s.protectedHeaders = v.protectedHeaders ∧ v.payloadBytes codec = .ok s.payload := by
  cases v with
  | sign1 s' => cases h; exact ⟨rfl, rfl⟩
  | mac0 s' => cases h
  | cwt s' =>
    obtain ⟨payload, hpayload, h⟩ := bind_eq_ok.mp h
    cases h
    exact ⟨rfl, map_eq_ok.mpr ⟨payload, hpayload, rfl⟩⟩

theorem asMac0_eq_ok {v : Structure} {s : Mac0} (h : v.asMac0 codec = .ok s) :
    s.protectedHeaders = v.protectedHeaders ∧ v.payloadBytes codec = .ok s.payload := by
  cases v with
  | sign1 s' => cases h
  | mac0 s' => cases h; exact ⟨rfl, rfl⟩
  | cwt s' =>
    obtain ⟨payload, hpayload, h⟩ := bind_eq_ok.mp h
    cases h
    exact ⟨rfl, map_eq_ok.mpr ⟨payload, hpayload, rfl⟩⟩

theorem isPayload_of_payloadOf {v : Structure} {p : Provenance} {structureName : String}
    {embedded : Option Bytes} {options : Supplied} {payload : Bytes}
    (hembedded : v.expectedPayload codec p = .ok embedded)
    (h : payloadOf structureName embedded options.detachedPayload = .ok payload) :
    v.IsPayload codec p options payload := by
  cases embedded with
  | none =>
    cases hdetached : options.detachedPayload with
    | none => rw [hdetached] at h; cases h
    | some detached =>
      rw [hdetached] at h
      cases h
      exact Or.inr ⟨hembedded, hdetached⟩
  | some b =>
    cases hdetached : options.detachedPayload with
    | none =>
      rw [hdetached] at h
      cases h
      exact Or.inl hembedded
    | some detached => rw [hdetached] at h; cases h

theorem gives {v : Structure} {p : Provenance}
    (hheaders : v.protectedHeaders.encodedStructure codec = v.expectedProtected codec p)
    (hpayload : v.payloadBytes codec = v.expectedPayload codec p) : v.Gives codec p := by
  refine ⟨?_, ?_, ?_⟩
  · intro s key options request hs hrequest
    obtain ⟨hsame, hbytes⟩ := asSign1_eq_ok hs
    obtain ⟨payload, hembedded, hsigned⟩ :=
      Sign1.toBeSigned_eq_ok.mp (Sign1.toBeSigned_of_verifyRequest hrequest)
    obtain ⟨b, hb, heq⟩ := Sign1.toBeSignedOf_eq_ok.mp hsigned
    rw [hsame, hheaders] at hb
    exact ⟨b, payload, hb, isPayload_of_payloadOf (hpayload.symm.trans hbytes) hembedded, heq⟩
  · intro s key options request hs hrequest
    obtain ⟨hsame, hbytes⟩ := asMac0_eq_ok hs
    obtain ⟨payload, hembedded, hauthenticated⟩ :=
      Mac0.toBeAuthenticated_eq_ok.mp (Mac0.toBeAuthenticated_of_verifyRequest hrequest)
    obtain ⟨b, hb, heq⟩ := Mac0.toBeAuthenticatedOf_eq_ok.mp hauthenticated
    rw [hsame, hheaders] at hb
    exact ⟨b, payload, hb, isPayload_of_payloadOf (hpayload.symm.trans hbytes) hembedded, heq⟩
  · intro token htoken
    obtain ⟨b, payload, hb, hbytes, hparts⟩ := receivedParts_encode htoken
    exact ⟨b, payload, hheaders.symm.trans hb, hpayload.symm.trans hbytes, hparts⟩

end Structure

/-- After any run, every structure hands over and writes the parts that it was received with, as
long as they were not modified, and its header map and its claims set where they were. -/
theorem receivedBytes_survive (codec : Codec) (base : HeaderClasses) (ops : List Op) :
    let t := run (Tracked.step codec base) {} ops
    t.provenance.length = t.state.nodes.length ∧
    ∀ i < t.state.nodes.length, ∃ v p, t.state.view i = some v ∧
      t.provenance[i]? = some p ∧ v.Gives codec p := by
  intro t
  have h : Inv t := inv_run ops
  refine ⟨h.length, fun i hi => ?_⟩
  have hn := List.getElem?_eq_getElem hi
  obtain ⟨p, hp⟩ := h.exists_provenance hn
  obtain ⟨ho, m, hh, hm, -, -⟩ := h.headers i _ p hn hp
  have hview : (t.state.view i).isSome := by
    have hload : t.state.loadHeaders t.state.nodes[i].headers = some
        { schema := ho.schema, headers := m.entries,
          originalEncodedStructure := ho.originalEncodedStructure } := by
      rw [State.loadHeaders, hh]
      change (t.state.maps[ho.map]?.bind fun m => _) = _
      rw [hm]
      rfl
    rw [← Option.isSome_map (f := Structure.protectedHeaders), view_headers hn, hload]
    rfl
  obtain ⟨v, hv⟩ := Option.isSome_iff_exists.mp hview
  obtain ⟨p', hp', hheaders, hpayload⟩ := @Inv.view codec _ h _ _ hv
  exact ⟨v, p', hv, hp', Structure.gives hheaders hpayload⟩

/-- The algorithm 5 in two bytes is kept until a header is set, which writes it in one. -/
example :
    let classes : HeaderClasses :=
      ⟨⟨"ProtectedHeaders", fun _ => true⟩, ⟨"UnprotectedHeaders", fun _ => true⟩⟩
    let token : Bytes := [0xd1, 0x84, 0x44, 0xa1, 0x01, 0x18, 0x05, 0xa0, 0x41, 0x01, 0x41, 0x02]
    let headers (ops : List Op) :=
      ((run (State.step shortest classes) {} (.decode (.mac0 none) token :: ops)).view 0).map
      fun v => (v.protectedHeaders.encodedStructure shortest).toOption
    headers [] = some (some [0xa1, 0x01, 0x18, 0x05]) ∧
      headers [.setHeader 0 (.unsigned 4) (.bytes [7])] =
        some (some [0xa2, 0x01, 0x05, 0x04, 0x41, 0x07]) :=
  ⟨rfl, rfl⟩

end IdentityCommon.Cose
