import Mathlib.Data.List.Range
import Mathlib.Data.List.Perm.Basic
import Mathlib.Logic.Relation
import IdentityCommon.Lib.CycleWalk
import IdentityCommon.TokenStatusList.Ff1

/-!
# Allocation of status list indices

`FeistelStatusListIndexAllocator`: every call of `next` claims a position and returns the
index that encrypting it, again while it is outside the list, leads to.

## Main definitions

- `create`, `getState`, `claim`, `cycleWalk`, `next` — the allocator
- `System`, `Step` — calls of `next` in flight: a call claims its position at once and
  returns its index at any later point; the allocator is restored from its state at any point

## Main results

- `Claimed.step` — what one step preserves
- `allocation` — over every run the returned indices are distinct and in the list, and none
  is left when the list is exhausted
-/

namespace IdentityCommon.TokenStatusList

open CycleWalk

/-- NIST requires FF1's domain to hold at least 1,000,000 values. -/
def MIN_LENGTH : ℕ := 1000000

structure FeistelStatusListIndexAllocatorState where
  length : ℕ
  position : ℕ := 0
  tweak : Option (List UInt8) := none
  deriving DecidableEq

structure FeistelStatusListIndexAllocator where
  length : ℕ
  bits : ℕ
  tweak : Option (List UInt8)
  encryptBlock : EncryptBlock
  position : ℕ

namespace FeistelStatusListIndexAllocator

/-- The constructor. -/
def new (state : FeistelStatusListIndexAllocatorState) (encryptBlock : EncryptBlock) :
    FeistelStatusListIndexAllocator where
  length := state.length
  bits := (Nat.toDigits 2 (state.length - 1)).length
  tweak := state.tweak
  encryptBlock := encryptBlock
  position := state.position

def create (options : FeistelStatusListIndexAllocatorState) (encryptBlock : EncryptBlock) :
    Except StatusListError FeistelStatusListIndexAllocator :=
  if options.length < MIN_LENGTH ∨ options.length > 0xffffffff then
    .error ⟨"length must be an integer between 1,000,000 and 2^32 - 1"⟩
  else if options.position > options.length then
    .error ⟨"position must be between 0 and length"⟩
  else
    .ok (new options encryptBlock)

def getState (a : FeistelStatusListIndexAllocator) : FeistelStatusListIndexAllocatorState where
  length := a.length
  position := a.position
  tweak := a.tweak

def remaining (a : FeistelStatusListIndexAllocator) : ℕ := a.length - a.position

/-- The part of `next` before its first `await`: the position the call works on. -/
def claim (a : FeistelStatusListIndexAllocator) :
    Except StatusListError (ℕ × FeistelStatusListIndexAllocator) :=
  if a.position ≥ a.length then
    .error ⟨"No status list indices remain"⟩
  else
    .ok (a.position, { a with position := a.position + 1 })

/-- The loop of `next`, at most `fuel` times; `none` if it goes on. -/
def cycleWalk (length bits : ℕ) (options : Ff1Options) :
    ℕ → ℕ → Option (Except StatusListError ℕ)
  | 0, _ => none
  | fuel + 1, value =>
    match ff1Encrypt value bits options with
    | .error e => some (.error e)
    | .ok value =>
      if value ≥ length then cycleWalk length bits options fuel value else some (.ok value)

/-- The options of the encryption. -/
def options (a : FeistelStatusListIndexAllocator) : Ff1Options where
  radix := 2
  tweak := a.tweak.getD []
  encryptBlock := a.encryptBlock

/-- The call of `next` that claimed `position` returns `index`. -/
def Returns (a : FeistelStatusListIndexAllocator) (position index : ℕ) : Prop :=
  ∃ fuel, cycleWalk a.length a.bits a.options fuel position = some (.ok index)

/-- A call of `next` that is awaited at once. -/
def next (a : FeistelStatusListIndexAllocator) (fuel : ℕ) :
    Option (Except StatusListError (ℕ × FeistelStatusListIndexAllocator)) :=
  match a.claim with
  | .error e => some (.error e)
  | .ok (position, a') =>
    (cycleWalk a.length a.bits a.options fuel position).map fun r => r.map fun index => (index, a')

end FeistelStatusListIndexAllocator

open FeistelStatusListIndexAllocator

/-! ## Calls in flight -/

/-- An allocator with the calls of `next` made so far. -/
structure System where
  allocator : FeistelStatusListIndexAllocator
  /-- The positions claimed by calls that have not returned. -/
  pending : List ℕ
  /-- The indices returned, in the order of the returns. -/
  returned : List ℕ
  /-- A call has thrown because no index remained. -/
  exhausted : Bool

def System.initial (a : FeistelStatusListIndexAllocator) : System := ⟨a, [], [], false⟩

/-- One step of a run. A call in flight finishes at any point or never, also after the allocator it
was made on has been replaced by one created from its state. -/
inductive Step : System → System → Prop
  | call {s : System} {position : ℕ} {a : FeistelStatusListIndexAllocator} :
      s.allocator.claim = .ok (position, a) →
        Step s { s with allocator := a, pending := s.pending ++ [position] }
  | throw {s : System} {e : StatusListError} :
      s.allocator.claim = .error e → Step s { s with exhausted := true }
  | return {s : System} {before after : List ℕ} {position index : ℕ} :
      s.pending = before ++ position :: after → s.allocator.Returns position index →
        Step s { s with pending := before ++ after, returned := s.returned ++ [index] }
  | restart {s : System} {a : FeistelStatusListIndexAllocator} :
      create s.allocator.getState s.allocator.encryptBlock = .ok a →
        Step s { s with allocator := a }

abbrev Reachable (a : FeistelStatusListIndexAllocator) : System → Prop :=
  Relation.ReflTransGen Step (System.initial a)

/-! ## The walk -/

section Walk

variable {length bits : ℕ} {options : Ff1Options} {g : ℕ → ℕ}

theorem cycleWalk_of_walk
    (hg : ∀ value < options.radix ^ bits,
      ff1Encrypt value bits options = .ok (g value) ∧ g value < options.radix ^ bits)
    {n x y : ℕ} (h : Walk g (· < length) n x y) (hx : x < options.radix ^ bits) :
    ∀ fuel > n, cycleWalk length bits options fuel x = some (.ok y) := by
  induction h with
  | stop hp =>
    intro fuel hfuel
    obtain ⟨k, rfl⟩ := Nat.exists_eq_succ_of_ne_zero (Nat.ne_of_gt hfuel)
    rw [cycleWalk, (hg _ hx).1]
    exact if_neg (Nat.not_le.mpr hp)
  | step hp _ ih =>
    intro fuel hfuel
    obtain ⟨k, rfl⟩ := Nat.exists_eq_succ_of_ne_zero (Nat.ne_of_gt (Nat.zero_lt_of_lt hfuel))
    rw [cycleWalk, (hg _ hx).1]
    simp only [if_pos (Nat.not_lt.mp hp)]
    exact ih (hg _ hx).2 k (by omega)

theorem walk_of_cycleWalk
    (hg : ∀ value < options.radix ^ bits,
      ff1Encrypt value bits options = .ok (g value) ∧ g value < options.radix ^ bits)
    {y : ℕ} (fuel : ℕ) : ∀ {x}, x < options.radix ^ bits →
      cycleWalk length bits options fuel x = some (.ok y) → ∃ n, Walk g (· < length) n x y := by
  induction fuel with
  | zero => intro x _ h; cases h
  | succ fuel ih =>
    intro x hx h
    rw [cycleWalk, (hg x hx).1] at h
    simp only at h
    split at h
    case isTrue hge =>
      obtain ⟨n, hw⟩ := ih (hg x hx).2 h
      exact ⟨n + 1, .step (Nat.not_lt.mpr hge) hw⟩
    case isFalse hlt =>
      obtain rfl : g x = y := by simpa using h
      exact ⟨0, .stop (Nat.not_le.mp hlt)⟩

end Walk

/-- The conditions `create` checks, and what is required of the block cipher. -/
structure ValidAllocator (a : FeistelStatusListIndexAllocator) : Prop where
  le_length : MIN_LENGTH ≤ a.length
  length_le : a.length ≤ 0xffffffff
  bits_eq : a.bits = (Nat.toDigits 2 (a.length - 1)).length
  block : ∀ block, (a.encryptBlock block).length = BLOCK_SIZE

section Valid

variable {a : FeistelStatusListIndexAllocator} (ha : ValidAllocator a)

include ha

theorem ValidAllocator.length_le_two_pow : a.length ≤ 2 ^ a.bits := by
  have hpos : 0 < a.bits := by rw [ha.bits_eq]; exact Nat.length_toDigits_pos
  have hlt := (Nat.length_toDigits_le_iff (n := a.length - 1) (by omega) hpos).mp ha.bits_eq.ge
  have := ha.le_length
  unfold MIN_LENGTH at this
  omega

theorem ValidAllocator.ff1Domain : Ff1Domain a.bits a.options where
  two_le_radix := le_rfl
  radix_le := show 2 ≤ 2 ^ 16 by norm_num
  two_le := by
    by_contra hlt
    have hpow : 2 ^ a.bits ≤ 2 ^ 1 := Nat.pow_le_pow_right (by omega) (by omega)
    have hlen := ha.length_le_two_pow
    have hmin := ha.le_length
    unfold MIN_LENGTH at hmin
    omega
  lt := by
    have hle : a.bits ≤ 32 := by
      have hmax := ha.length_le
      rw [ha.bits_eq, Nat.length_toDigits_le_iff (by omega) (by omega)]
      omega
    omega
  domain := le_trans ha.le_length ha.length_le_two_pow

/-- The positions below the length and the indices they lead to, one to one. -/
theorem ValidAllocator.returns :
    (∀ p < a.length, ∃ fuel index, index < a.length ∧ ∀ fuel' ≥ fuel,
      cycleWalk a.length a.bits a.options fuel' p = some (.ok index)) ∧
    (∀ p index, p < a.length → a.Returns p index → index < a.length) ∧
    (∀ p p' index, p < a.length → p' < a.length → a.Returns p index → a.Returns p' index →
      p = p') := by
  obtain ⟨g, hg, hinj⟩ := ff1Encrypt_permutes ha.ff1Domain ha.block
  have hmaps : ∀ x < 2 ^ a.bits, g x < 2 ^ a.bits := fun x hx => (hg x hx).2
  have hle : ∀ p, p < a.length → p < 2 ^ a.bits := fun p hp =>
    lt_of_lt_of_le hp ha.length_le_two_pow
  refine ⟨fun p hp => ?_, fun p index hp hr => ?_, fun p p' index hp hp' hr hr' => ?_⟩
  · obtain ⟨n, y, hw⟩ := exists_walk (p := (· < a.length)) hmaps hinj (hle p hp) hp
    exact ⟨n + 1, y, hw.end_mem, fun fuel hf =>
      cycleWalk_of_walk hg hw (hle p hp) fuel (by omega)⟩
  · obtain ⟨fuel, hf⟩ := hr
    obtain ⟨n, hw⟩ := walk_of_cycleWalk hg fuel (hle p hp) hf
    exact hw.end_mem
  · obtain ⟨fuel, hf⟩ := hr
    obtain ⟨fuel', hf'⟩ := hr'
    obtain ⟨n, hw⟩ := walk_of_cycleWalk hg fuel (hle p hp) hf
    obtain ⟨n', hw'⟩ := walk_of_cycleWalk hg fuel' (hle p' hp') hf'
    exact Walk.injective hmaps hinj hw hw' (hle p hp) (hle p' hp') hp hp'

end Valid

/-! ## Runs -/

/-- The invariant of a run of allocator `a` from position `start`: the positions claimed so far are
those of the calls that returned, with their indices, and those in flight. -/
structure Claimed (a : FeistelStatusListIndexAllocator) (start : ℕ) (s : System) : Prop where
  allocator : s.allocator = { a with position := s.allocator.position }
  start_le : start ≤ s.allocator.position
  le_length : s.allocator.position ≤ a.length
  claimed : ∃ settled, List.Forall₂ a.Returns settled s.returned ∧
    (settled ++ s.pending).Perm (List.range' start (s.allocator.position - start))
  exhausted : s.exhausted → s.allocator.position = a.length

theorem Claimed.returns_iff {a : FeistelStatusListIndexAllocator} {start : ℕ} {s : System}
    (h : Claimed a start s) (p index : ℕ) : s.allocator.Returns p index ↔ a.Returns p index := by
  rw [h.allocator]
  rfl

theorem claim_eq_ok {a a' : FeistelStatusListIndexAllocator} {position : ℕ}
    (h : a.claim = .ok (position, a')) :
    a.position < a.length ∧ position = a.position ∧ a' = { a with position := a.position + 1 } := by
  unfold claim at h
  split at h
  case isTrue => cases h
  case isFalse hlt =>
    obtain ⟨rfl, rfl⟩ := Prod.mk.inj (Except.ok.inj h)
    exact ⟨Nat.not_le.mp hlt, rfl, rfl⟩

theorem claim_eq_error {a : FeistelStatusListIndexAllocator} {e : StatusListError}
    (h : a.claim = .error e) : a.length ≤ a.position := by
  unfold claim at h
  split at h
  case isTrue hle => exact hle
  case isFalse => cases h

/-- Restoring an allocator from its state gives the same allocator. -/
theorem create_getState {a a' : FeistelStatusListIndexAllocator}
    (hbits : a.bits = (Nat.toDigits 2 (a.length - 1)).length)
    (h : create a.getState a.encryptBlock = .ok a') : a' = a := by
  unfold create at h
  split at h
  case isTrue => cases h
  case isFalse =>
    split at h
    case isTrue => cases h
    case isFalse =>
      obtain rfl := Except.ok.inj h
      obtain ⟨length, bits, tweak, encryptBlock, position⟩ := a
      obtain rfl : bits = (Nat.toDigits 2 (length - 1)).length := hbits
      rfl

/-- One step keeps the account of the claimed positions. -/
theorem Claimed.step {a : FeistelStatusListIndexAllocator} (ha : ValidAllocator a) {start : ℕ}
    {s s' : System} (h : Claimed a start s) (hs : Step s s') : Claimed a start s' := by
  obtain ⟨settled, hret, hperm⟩ := h.claimed
  have hlen : s.allocator.length = a.length := by rw [h.allocator]
  cases hs with
  | @call position a' hc =>
    obtain ⟨hlt, rfl, rfl⟩ := claim_eq_ok hc
    have hstart := h.start_le
    rw [hlen] at hlt
    refine ⟨?_, by simp only; omega, by simp only; omega, ⟨settled, hret, ?_⟩, fun he => ?_⟩
    · conv_lhs => rw [h.allocator]
    · -- the new position is the next one of the range
      simp only
      rw [Nat.sub_add_comm hstart, List.range'_1_concat, ← List.append_assoc,
        Nat.add_sub_cancel' hstart]
      exact hperm.append_right _
    · exact absurd (h.exhausted he) (by omega)
  | throw hc =>
    refine ⟨h.allocator, h.start_le, h.le_length, ⟨settled, hret, hperm⟩, fun _ => ?_⟩
    have hle := claim_eq_error hc
    rw [hlen] at hle
    exact le_antisymm h.le_length hle
  | @«return» before after position index hp hr =>
    refine ⟨h.allocator, h.start_le, h.le_length, ⟨settled ++ [position], ?_, ?_⟩, h.exhausted⟩
    · exact List.rel_append hret (.cons ((h.returns_iff _ _).mp hr) .nil)
    · rw [hp] at hperm
      refine List.Perm.trans ?_ hperm
      rw [List.append_assoc]
      show (settled ++ (position :: (before ++ after))).Perm _
      exact List.perm_middle.symm.append_left settled
  | restart hc =>
    obtain rfl := create_getState (by rw [h.allocator]; exact ha.bits_eq) hc
    exact ⟨h.allocator, h.start_le, h.le_length, ⟨settled, hret, hperm⟩, h.exhausted⟩

theorem Claimed.reachable {a : FeistelStatusListIndexAllocator} (ha : ValidAllocator a)
    (hpos : a.position ≤ a.length) {s : System} (h : Reachable a s) : Claimed a a.position s := by
  induction h with
  | refl => exact ⟨rfl, le_rfl, hpos, ⟨[], .nil, by simp [System.initial]⟩, by
      simp [System.initial]⟩
  | tail _ hs ih => exact ih.step ha hs

/-- Distinct positions lead to distinct indices. -/
theorem nodup_of_returns {a : FeistelStatusListIndexAllocator} (ha : ValidAllocator a)
    {positions indices : List ℕ} (hlt : ∀ p ∈ positions, p < a.length) (hnd : positions.Nodup)
    (h : List.Forall₂ a.Returns positions indices) :
    indices.Nodup ∧ ∀ i ∈ indices, i < a.length := by
  obtain ⟨-, hrange, hinj⟩ := ha.returns
  induction h with
  | nil => simp
  | @cons p i positions indices hr htail ih =>
    obtain ⟨hp, hrest⟩ := List.forall_mem_cons.mp hlt
    obtain ⟨hnot, hnd'⟩ := List.nodup_cons.mp hnd
    obtain ⟨ih₁, ih₂⟩ := ih hrest hnd'
    refine ⟨List.nodup_cons.mpr ⟨fun hi => hnot ?_, ih₁⟩,
      List.forall_mem_cons.mpr ⟨hrange p i hp hr, ih₂⟩⟩
    obtain ⟨p', hp', hr'⟩ : ∃ p' ∈ positions, a.Returns p' i := by
      obtain ⟨n, hn, rfl⟩ := List.mem_iff_getElem.mp hi
      have hn' : n < positions.length := by rw [htail.length_eq]; exact hn
      exact ⟨positions[n], List.getElem_mem hn', List.forall₂_iff_get.mp htail |>.2 n hn' hn⟩
    rw [hinj p p' i hp (hrest p' hp') hr hr']
    exact hp'

/-- Every list of positions below the length has its indices. -/
theorem exists_returns {a : FeistelStatusListIndexAllocator} (ha : ValidAllocator a) :
    ∀ positions : List ℕ, (∀ p ∈ positions, p < a.length) →
      ∃ indices, List.Forall₂ a.Returns positions indices
  | [], _ => ⟨[], .nil⟩
  | p :: positions, h => by
    obtain ⟨hp, hrest⟩ := List.forall_mem_cons.mp h
    obtain ⟨fuel, index, -, hf⟩ := ha.returns.1 p hp
    obtain ⟨indices, hi⟩ := exists_returns ha positions hrest
    exact ⟨index :: indices, .cons ⟨fuel, hf fuel le_rfl⟩ hi⟩

/-- Allocation of status list indices. For every list length, tweak, block cipher with 16-byte
output and start position the allocator is created; the loop of `next` ends for every position below
the length; over every run, with calls in flight and restarts at any point, the indices returned are
distinct and below the length; and in a run from position 0 in which `next` has thrown, every index
below the length is returned exactly once, or is the one that a call still in flight returns. -/
theorem allocation (length start : ℕ) (tweak : Option (List UInt8)) (encryptBlock : EncryptBlock)
    (hmin : 1000000 ≤ length) (hmax : length ≤ 2 ^ 32 - 1) (hstart : start ≤ length)
    (h16 : ∀ block, (encryptBlock block).length = 16) :
    ∃ a, create ⟨length, start, tweak⟩ encryptBlock = .ok a ∧
      (∀ p < length, ∃ fuel index, index < length ∧ ∀ fuel' ≥ fuel,
        cycleWalk a.length a.bits a.options fuel' p = some (.ok index)) ∧
      ∀ s, Reachable a s → s.returned.Nodup ∧ (∀ i ∈ s.returned, i < length) ∧
        (start = 0 → s.exhausted → ∃ inFlight, List.Forall₂ a.Returns s.pending inFlight ∧
          (s.returned ++ inFlight).Perm (List.range length)) := by
  let a := new ⟨length, start, tweak⟩ encryptBlock
  have ha : ValidAllocator a := ⟨hmin, hmax, rfl, h16⟩
  refine ⟨a, ?_, ha.returns.1, fun s hs => ?_⟩
  · have hmin' : MIN_LENGTH ≤ length := hmin
    rw [create, if_neg (by simp only; omega), if_neg (by simp only; omega)]
  · have hc := Claimed.reachable ha hstart hs
    obtain ⟨settled, hret, hperm⟩ := hc.claimed
    have hlt : ∀ p ∈ settled ++ s.pending, p < a.length := by
      intro p hp
      have := List.mem_range'_1.mp (hperm.mem_iff.mp hp)
      have := hc.le_length
      omega
    have hnd : (settled ++ s.pending).Nodup := hperm.nodup_iff.mpr List.nodup_range'
    obtain ⟨h₁, h₂⟩ := nodup_of_returns ha (fun p hp => hlt p (List.mem_append_left _ hp))
      (hnd.of_append_left) hret
    refine ⟨h₁, h₂, ?_⟩
    rintro rfl hex
    obtain ⟨inFlight, hfl⟩ := exists_returns ha s.pending fun p hp =>
      hlt p (List.mem_append_right _ hp)
    obtain ⟨hnd', hlt'⟩ := nodup_of_returns ha hlt hnd (List.rel_append hret hfl)
    refine ⟨inFlight, hfl, ?_⟩
    -- `length` distinct indices below `length` are all of them
    have hlen : (s.returned ++ inFlight).length = length := by
      rw [← (List.rel_append hret hfl).length_eq, hperm.length_eq, List.length_range',
        hc.exhausted hex]
      rfl
    have hsub : (s.returned ++ inFlight) ⊆ List.range length := fun i hi =>
      List.mem_range.mpr (hlt' i hi)
    exact (hnd'.subperm hsub).perm_of_length_le (by simp [hlen])

/-- A list of a million statuses, with the first 16 bytes of the block padded by zeros as its
encryption: the positions below the length lead to indices below it. -/
theorem allocation_million :
    ∃ a, create ⟨1000000, 0, none⟩ (fun block => (block ++ List.replicate 16 0).take 16) = .ok a ∧
      (∀ p < 1000000, ∃ fuel index, index < 1000000 ∧ ∀ fuel' ≥ fuel,
        cycleWalk a.length a.bits a.options fuel' p = some (.ok index)) ∧
      ∀ s, Reachable a s → s.returned.Nodup ∧ (∀ i ∈ s.returned, i < 1000000) ∧
        (0 = 0 → s.exhausted → ∃ inFlight, List.Forall₂ a.Returns s.pending inFlight ∧
          (s.returned ++ inFlight).Perm (List.range 1000000)) :=
  allocation 1000000 0 none _ (by norm_num) (by norm_num) (by norm_num) fun block => by simp

end IdentityCommon.TokenStatusList
