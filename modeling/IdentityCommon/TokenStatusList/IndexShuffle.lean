import Mathlib.Data.List.Perm.Basic
import Mathlib.Data.List.Range
import Mathlib.Logic.Relation
import IdentityCommon.Lib.Except
import IdentityCommon.TokenStatusList.Ff1

/-!
# Allocation of shuffled status list indices

`StatusListIndexAllocator`: the indices of a status list, in an order that is shuffled with the
numbers of a hash stream, and handed out one by one.

## Main definitions

- `SeededRandom` — the numbers of the hash stream of a seed
- `shuffle` — the loop that shuffles the indices
- `create`, `getState`, `next` — the allocator
- `Step` — a call of `next`, or a restart from the state of the allocator

## Main results

- `shuffle_perm` — a shuffle is a permutation
- `exists_shuffle` — a stream that keeps offering numbers below the limits ends every shuffle
- `Handed.step` — what one step preserves
- `allocation_of_shuffle` — what every run hands out

## Design notes

The loop of `nextInt` is bounded by fuel, that runs out where all the numbers are rejected. The
hasher is a function, that reads the seed and the counter.
-/

namespace IdentityCommon.TokenStatusList

open IdentityCommon.Except

/-! ## The hash stream -/

abbrev Hasher := List UInt8 → String → List UInt8

def UINT32_RANGE : ℕ := 0x100000000

/-- The permutation is defined over SHA-256 of the seed and the counter. -/
def SEED_HASH_ALGORITHM : String := "sha-256"

structure SeededRandom where
  seed : List UInt8
  counter : ℕ := 0
  buffer : List UInt8 := []
  bufferOffset : ℕ := 0

namespace SeededRandom

/-- The buffer, with the next digest where four bytes are not left. -/
def refill (hasher : Hasher) (random : SeededRandom) : Except StatusListError SeededRandom :=
  if random.bufferOffset + 4 > random.buffer.length then
    let digest := hasher (random.seed ++ toBytes random.counter 4) SEED_HASH_ALGORITHM
    let returned := digest.length
    if digest.length < 4 then
      .error ⟨s!"hasher returned {returned} bytes for {SEED_HASH_ALGORITHM}, expected at least 4"⟩
    else .ok { random with counter := random.counter + 1, buffer := digest, bufferOffset := 0 }
  else .ok random

def nextUint32 (hasher : Hasher) (random : SeededRandom) :
    Except StatusListError (ℕ × SeededRandom) := do
  let random ← refill hasher random
  return (fromBytes ((random.buffer.drop random.bufferOffset).take 4),
    { random with bufferOffset := random.bufferOffset + 4 })

/-- The numbers from here on are rejected. -/
def limit (maxExclusive : ℕ) : ℕ := UINT32_RANGE - UINT32_RANGE % maxExclusive

/-- An integer below `maxExclusive`; `none` if the loop goes on after `fuel` numbers. -/
def nextInt (hasher : Hasher) (maxExclusive : ℕ) :
    ℕ → SeededRandom → Option (Except StatusListError (ℕ × SeededRandom))
  | 0, _ => none
  | fuel + 1, random =>
    match nextUint32 hasher random with
    | .error e => some (.error e)
    | .ok (value, random) =>
      if value ≥ limit maxExclusive then nextInt hasher maxExclusive fuel random
      else some (.ok (value % maxExclusive, random))

/-- Number `n` of the stream. -/
def nthUint32 (hasher : Hasher) : ℕ → SeededRandom → Except StatusListError ℕ
  | 0, random => (nextUint32 hasher random).map Prod.fst
  | n + 1, random => do
    let next ← nextUint32 hasher random
    nthUint32 hasher n next.2

/-- The stream keeps offering numbers that are not rejected, for every bound up to `length`. -/
def Offers (hasher : Hasher) (length : ℕ) (random : SeededRandom) : Prop :=
  ∀ maxExclusive, 2 ≤ maxExclusive → maxExclusive ≤ length →
  ∀ n, ∃ n' ≥ n, ∃ value < limit maxExclusive,
    nthUint32 hasher n' random = .ok value

end SeededRandom

open SeededRandom

/-! ## The allocator -/

/-- `indices[i]` and `indices[j]` exchanged. -/
def swap (indices : List ℕ) (i j : ℕ) : List ℕ :=
  (indices.set i (indices.getD j 0)).set j (indices.getD i 0)

/-- The loop of `create` from `index` down. -/
def shuffle (hasher : Hasher) (fuel : ℕ) :
    ℕ → List ℕ → SeededRandom → Option (Except StatusListError (List ℕ))
  | 0, indices, _ => some (.ok indices)
  | index + 1, indices, random =>
    match nextInt hasher (index + 1 + 1) fuel random with
    | none => none
    | some (.error e) => some (.error e)
    | some (.ok (swapIndex, random)) =>
        shuffle hasher fuel index (swap indices (index + 1) swapIndex) random

structure StatusListIndexAllocatorState where
  length : ℕ
  position : ℕ := 0
  seed : List UInt8

structure StatusListIndexAllocator where
  indices : List ℕ
  seed : List UInt8
  position : ℕ

namespace StatusListIndexAllocator

def validateLength (length : ℕ) : Except StatusListError Unit :=
  if length = 0 ∨ length > 0xffffffff then
    .error ⟨"length must be a positive safe integer no greater than 2^32 - 1"⟩
  else .ok ()

def validateSeed (seed : List UInt8) : Except StatusListError Unit :=
  if seed.length = 0 then .error ⟨"seed must not be empty"⟩ else .ok ()

def validatePosition (position length : ℕ) : Except StatusListError Unit :=
  if position > length then .error ⟨"position must be between 0 and length"⟩ else .ok ()

def validate (options : StatusListIndexAllocatorState) : Except StatusListError Unit := do
  validateLength options.length
  validateSeed options.seed
  validatePosition options.position options.length

/-- `none` if the shuffle needs more than `fuel` numbers for one index. -/
def create (hasher : Hasher) (fuel : ℕ) (options : StatusListIndexAllocatorState) :
    Option (Except StatusListError StatusListIndexAllocator) :=
  match validate options with
  | .error e => some (.error e)
  | .ok () =>
    (shuffle hasher fuel (options.length - 1)
      (List.range options.length) { seed := options.seed }).map fun result =>
      result.map fun indices => { indices, seed := options.seed, position := options.position }

def next (a : StatusListIndexAllocator) : Except StatusListError (ℕ × StatusListIndexAllocator) :=
  if a.position ≥ a.indices.length then .error ⟨"No status list indices remain"⟩
  else .ok (a.indices.getD a.position 0, { a with position := a.position + 1 })

def remaining (a : StatusListIndexAllocator) : ℕ := a.indices.length - a.position

def getState (a : StatusListIndexAllocator) : StatusListIndexAllocatorState where
  length := a.indices.length
  position := a.position
  seed := a.seed

/-! ## Runs -/

/-- An allocator with what it has handed out. -/
structure System where
  allocator : StatusListIndexAllocator
  returned : List ℕ
  /-- A call has thrown because no index remained. -/
  exhausted : Bool

def System.initial (a : StatusListIndexAllocator) : System := ⟨a, [], false⟩

inductive Step (hasher : Hasher) : System → System → Prop
  | next {s : System} {index : ℕ} {a : StatusListIndexAllocator} :
      s.allocator.next = .ok (index, a) →
      Step hasher s { s with allocator := a, returned := s.returned ++ [index] }
  | throw {s : System} {e : StatusListError} :
      s.allocator.next = .error e → Step hasher s { s with exhausted := true }
  | restart {s : System} {fuel : ℕ} {a : StatusListIndexAllocator} :
      create hasher fuel s.allocator.getState = some (.ok a) →
      Step hasher s { s with allocator := a }

abbrev Reachable (hasher : Hasher) (a : StatusListIndexAllocator) : System → Prop :=
  Relation.ReflTransGen (Step hasher) (System.initial a)

/-- What `n` calls of `next` hand out without a restart. -/
def calls : ℕ → StatusListIndexAllocator → Except StatusListError (List ℕ)
  | 0, _ => .ok []
  | n + 1, a => do
    let (index, a) ← next a
    let rest ← calls n a
    return index :: rest

end StatusListIndexAllocator

/-! ## The stream -/

section

variable {hasher : Hasher} {maxExclusive length fuel fuel' : ℕ} {random : SeededRandom}

theorem limit_pos (h : maxExclusive ≤ UINT32_RANGE) (hpos : 0 < maxExclusive) :
    0 < limit maxExclusive := by
  have hmod : UINT32_RANGE % maxExclusive < maxExclusive := Nat.mod_lt _ hpos
  rw [limit]
  omega

theorem nextInt_mono {result : Except StatusListError (ℕ × SeededRandom)} (hle : fuel ≤ fuel')
    (h : nextInt hasher maxExclusive fuel random = some result) :
    nextInt hasher maxExclusive fuel' random = some result := by
  induction fuel generalizing fuel' random with
  | zero => cases h
  | succ fuel ih =>
    obtain ⟨fuel', rfl⟩ := Nat.exists_eq_add_of_le' (Nat.zero_lt_of_lt hle)
    unfold nextInt at h ⊢
    split
    · next e he =>
      rw [he] at h
      exact h
    · next value random' hnext =>
      rw [hnext] at h
      dsimp only at h
      split
      · next hge =>
        rw [if_pos hge] at h
        exact ih (Nat.le_of_succ_le_succ hle) h
      · next hlt =>
        rw [if_neg hlt] at h
        exact h

theorem nextInt_lt {value : ℕ} {random' : SeededRandom} (hpos : 0 < maxExclusive)
    (h : nextInt hasher maxExclusive fuel random = some (.ok (value, random'))) :
    value < maxExclusive := by
  induction fuel generalizing random with
  | zero => cases h
  | succ fuel ih =>
    unfold nextInt at h
    split at h
    · cases h
    · split at h
      · exact ih h
      · cases h
        exact Nat.mod_lt _ hpos

/-- The stream after some of its numbers. -/
theorem exists_nextInt {n value : ℕ} (hvalue : value < limit maxExclusive)
    (h : nthUint32 hasher n random = .ok value) :
    ∃ fuel result random', nextInt hasher maxExclusive fuel random = some (.ok (result, random')) ∧
      ∃ skipped, ∀ n, nthUint32 hasher n random' = nthUint32 hasher (n + skipped) random := by
  induction n generalizing random with
  | zero =>
    obtain ⟨⟨value', random'⟩, hnext, rfl⟩ := map_eq_ok.mp h
    refine ⟨1, value' % maxExclusive, random', ?_, 1, fun n => ?_⟩
    · rw [nextInt, hnext]
      exact if_neg (Nat.not_le.mpr hvalue)
    · rw [nthUint32, hnext]
      rfl
  | succ n ih =>
    obtain ⟨⟨value', random'⟩, hnext, h⟩ := bind_eq_ok.mp h
    have hrest : ∀ n, nthUint32 hasher n random' = nthUint32 hasher (n + 1) random := by
      intro n
      rw [nthUint32, hnext]
      rfl
    by_cases hge : value' ≥ limit maxExclusive
    · obtain ⟨fuel, result, random'', hresult, skipped, hskipped⟩ := ih h
      refine ⟨fuel + 1, result, random'', ?_, skipped + 1, fun n => ?_⟩
      · rw [nextInt, hnext]
        exact (if_pos hge).trans hresult
      · rw [hskipped, hrest, Nat.add_assoc]
    · refine ⟨1, value' % maxExclusive, random', ?_, 1, hrest⟩
      rw [nextInt, hnext]
      exact if_neg hge

/-- A stream that keeps offering numbers does so after some of them. -/
theorem offers_skip (h : Offers hasher length random) {random' : SeededRandom} {skipped : ℕ}
    (hskipped : ∀ n, nthUint32 hasher n random' = nthUint32 hasher (n + skipped) random) :
    Offers hasher length random' := by
  intro maxExclusive htwo hle n
  obtain ⟨n', hn', value, hvalue, hnth⟩ := h maxExclusive htwo hle (n + skipped)
  refine ⟨n' - skipped, by omega, value, hvalue, ?_⟩
  rw [hskipped, Nat.sub_add_cancel (by omega), hnth]

/-- With enough bytes from the hasher no number fails. -/
theorem exists_nextUint32 (h4 : ∀ input, 4 ≤ (hasher input SEED_HASH_ALGORITHM).length)
    (random : SeededRandom) :
    ∃ next, nextUint32 hasher random = .ok next := by
  obtain ⟨random', h⟩ : ∃ random', refill hasher random = .ok random' := by
    rw [refill]
    dsimp only
    split
    · rw [if_neg (Nat.not_lt.mpr (h4 _))]
      exact ⟨_, rfl⟩
    · exact ⟨_, rfl⟩
  exact ⟨_, by rw [nextUint32, h]; rfl⟩

theorem nextInt_ne_error (h4 : ∀ input, 4 ≤ (hasher input SEED_HASH_ALGORITHM).length)
    {e : StatusListError} :
    nextInt hasher maxExclusive fuel random ≠ some (.error e) := by
  induction fuel generalizing random with
  | zero => exact fun h => nomatch h
  | succ fuel ih =>
    intro h
    obtain ⟨⟨value, random'⟩, hnext⟩ := exists_nextUint32 h4 random
    rw [nextInt, hnext] at h
    dsimp only at h
    split at h
    · exact ih h
    · cases h

/-! ## The shuffle -/

theorem swap_perm {indices : List ℕ} {i j : ℕ} (hi : i < indices.length) (hj : j < indices.length) :
    (swap indices i j).Perm indices := by
  rw [swap, List.getD_eq_getElem _ _ hi, List.getD_eq_getElem _ _ hj]
  exact List.set_set_perm hi hj

/-- A shuffle is a permutation. -/
theorem shuffle_perm {index : ℕ} {indices shuffled : List ℕ} (hindex : index < indices.length)
    (h : shuffle hasher fuel index indices random = some (.ok shuffled)) :
    shuffled.Perm indices := by
  induction index generalizing indices random with
  | zero =>
    cases h
    exact .refl _
  | succ index ih =>
    unfold shuffle at h
    split at h
    · cases h
    · cases h
    · next swapIndex random' hnext =>
      have hswap : (swap indices (index + 1) swapIndex).Perm indices :=
        swap_perm hindex (Nat.lt_of_lt_of_le (nextInt_lt (Nat.succ_pos _) hnext) hindex)
      refine (ih ?_ h).trans hswap
      rw [hswap.length_eq]
      omega

theorem shuffle_ne_error (h4 : ∀ input, 4 ≤ (hasher input SEED_HASH_ALGORITHM).length) {index : ℕ}
    {indices : List ℕ} {e : StatusListError} :
    shuffle hasher fuel index indices random ≠ some (.error e) := by
  induction index generalizing indices random with
  | zero => exact fun h => nomatch h
  | succ index ih =>
    intro h
    unfold shuffle at h
    split at h
    · cases h
    · next hnext => exact nextInt_ne_error h4 hnext
    · exact ih h

theorem shuffle_mono {index : ℕ} {indices : List ℕ} {result : Except StatusListError (List ℕ)}
    (hle : fuel ≤ fuel') (h : shuffle hasher fuel index indices random = some result) :
    shuffle hasher fuel' index indices random = some result := by
  induction index generalizing indices random with
  | zero => exact h
  | succ index ih =>
    unfold shuffle at h ⊢
    split at h
    · cases h
    · next e hnext =>
      rw [nextInt_mono hle hnext]
      exact h
    · next swapIndex random' hnext =>
      rw [nextInt_mono hle hnext]
      exact ih h

/-- A shuffle ends if the stream keeps offering numbers that are not rejected. -/
theorem exists_shuffle {index : ℕ} {indices : List ℕ} (hindex : index < length)
    (h : Offers hasher length random) :
    ∃ fuel shuffled, shuffle hasher fuel index indices random = some (.ok shuffled) := by
  induction index generalizing indices random with
  | zero => exact ⟨0, indices, rfl⟩
  | succ index ih =>
    obtain ⟨n, -, value, hvalue, hnth⟩ := h (index + 1 + 1) (by omega) hindex 0
    obtain ⟨fuel, swapIndex, random', hnext, skipped, hskipped⟩ := exists_nextInt hvalue hnth
    obtain ⟨fuel', shuffled, hshuffled⟩ :=
      @ih random' (swap indices (index + 1) swapIndex) (by omega) (offers_skip h hskipped)
    refine ⟨max fuel fuel', shuffled, ?_⟩
    rw [shuffle, nextInt_mono (le_max_left fuel fuel') hnext]
    exact shuffle_mono (le_max_right fuel fuel') hshuffled

end

/-! ## Allocators and runs -/

namespace StatusListIndexAllocator

section

variable {hasher : Hasher} {fuel : ℕ}

theorem validate_ok {options : StatusListIndexAllocatorState} (hpos : 0 < options.length)
    (hmax : options.length ≤ 0xffffffff) (hseed : options.seed ≠ [])
    (hposition : options.position ≤ options.length) :
    validate options = .ok () := by
  rw [validate, validateLength, if_neg (by omega), validateSeed,
    if_neg (fun h => hseed (List.length_eq_zero_iff.mp h)), validatePosition, if_neg (by omega)]
  rfl

/-- What an allocator is created with. -/
structure IsShuffled (hasher : Hasher) (fuel : ℕ) (a : StatusListIndexAllocator) : Prop where
  pos : 0 < a.indices.length
  length_le : a.indices.length ≤ 0xffffffff
  seed : a.seed ≠ []
  position : a.position ≤ a.indices.length
  shuffle : shuffle hasher fuel (a.indices.length - 1)
    (List.range a.indices.length) { seed := a.seed } =
    some (.ok a.indices)

/-- An allocator that is restored from its state is the same allocator. -/
theorem IsShuffled.create_getState {a : StatusListIndexAllocator} (h : IsShuffled hasher fuel a) :
    create hasher fuel a.getState = some (.ok a) := by
  have hvalid : validate a.getState = .ok () := validate_ok h.pos h.length_le h.seed h.position
  rw [create, hvalid]
  change (TokenStatusList.shuffle hasher fuel (a.indices.length - 1)
    (List.range a.indices.length) _).map _ = _
  rw [getState, h.shuffle]
  rfl

/-- More or less fuel does not change what is created. -/
theorem IsShuffled.create_unique {a a' : StatusListIndexAllocator}
    (h : IsShuffled hasher fuel a) {fuel' : ℕ}
    (h' : create hasher fuel' a.getState = some (.ok a')) : a' = a := by
  have hvalid : validate a.getState = .ok () := validate_ok h.pos h.length_le h.seed h.position
  unfold create at h'
  rw [hvalid] at h'
  obtain ⟨result, hshuffle, hresult⟩ := Option.map_eq_some_iff.mp h'
  have hmax := shuffle_mono (le_max_right fuel fuel') hshuffle
  have hmax' := shuffle_mono (le_max_left fuel fuel') h.shuffle
  obtain rfl : result = .ok a.indices := Option.some.inj (hmax.symm.trans hmax')
  exact (Except.ok.inj hresult).symm

/-- The invariant of a run: the indices from the first position on are handed out in their order. -/
structure Handed (a : StatusListIndexAllocator) (s : System) : Prop where
  allocator : s.allocator = { a with position := s.allocator.position }
  le_position : a.position ≤ s.allocator.position
  position_le : s.allocator.position ≤ a.indices.length
  returned : s.returned = (a.indices.drop a.position).take (s.allocator.position - a.position)
  exhausted : s.exhausted → s.allocator.position = a.indices.length

theorem next_eq_ok {a a' : StatusListIndexAllocator} {index : ℕ} (h : a.next = .ok (index, a')) :
    ∃ hlt : a.position < a.indices.length, index = a.indices[a.position] ∧
    a' = { a with position := a.position + 1 } := by
  unfold next at h
  split at h
  · cases h
  · next hlt =>
    obtain ⟨rfl, rfl⟩ := Prod.mk.inj (Except.ok.inj h)
    exact ⟨Nat.not_le.mp hlt, List.getD_eq_getElem _ _ (Nat.not_le.mp hlt), rfl⟩

theorem next_eq_error {a : StatusListIndexAllocator} {e : StatusListError} (h : a.next = .error e) :
    a.indices.length ≤ a.position := by
  unfold next at h
  split at h
  · next hle => exact hle
  · cases h

/-- One step hands out the next index, or none. -/
theorem Handed.step {a : StatusListIndexAllocator} (ha : IsShuffled hasher fuel a) {s s' : System}
    (h : Handed a s) (hs : Step hasher s s') : Handed a s' := by
  have hindices : s.allocator.indices = a.indices := by rw [h.allocator]
  have hle := h.le_position
  cases hs with
  | next hnext =>
    obtain ⟨hlt, rfl, rfl⟩ := next_eq_ok hnext
    have hadvanced := congrArg
      (fun x : StatusListIndexAllocator => { x with position := x.position + 1 }) h.allocator
    simp only [hindices] at hlt hadvanced ⊢
    refine ⟨hadvanced, by simp only; omega, hlt, ?_, fun he => ?_⟩
    · have hsub : s.allocator.position + 1 - a.position =
        s.allocator.position - a.position + 1 := by omega
      have hget : (a.indices.drop a.position)[s.allocator.position - a.position]? =
          some a.indices[s.allocator.position] := by
        rw [List.getElem?_drop, Nat.add_sub_cancel' hle, List.getElem?_eq_getElem hlt]
      simp only
      rw [hsub, List.take_add_one, hget, h.returned]
      rfl
    · exact absurd (h.exhausted he) (by omega)
  | throw hthrow =>
    refine ⟨h.allocator, hle, h.position_le, h.returned, fun _ => ?_⟩
    have hge := next_eq_error hthrow
    rw [hindices] at hge
    exact le_antisymm h.position_le hge
  | restart hcreate =>
    have hshuffled : IsShuffled hasher fuel s.allocator := by
      rw [h.allocator]
      exact ⟨ha.pos, ha.length_le, ha.seed, h.position_le, ha.shuffle⟩
    obtain rfl := hshuffled.create_unique hcreate
    exact ⟨h.allocator, hle, h.position_le, h.returned, h.exhausted⟩

theorem Handed.reachable {a : StatusListIndexAllocator} (ha : IsShuffled hasher fuel a) {s : System}
    (h : Reachable hasher a s) : Handed a s := by
  induction h with
  | refl => exact ⟨rfl, le_rfl, ha.position, by simp [System.initial], nofun⟩
  | tail _ hs ih => exact ih.step ha hs

/-- Calls of `next` without a restart hand out the indices in their order. -/
theorem calls_eq (n : ℕ) : ∀ a : StatusListIndexAllocator, n ≤ a.indices.length - a.position →
    calls n a = .ok ((a.indices.drop a.position).take n) := by
  induction n with
  | zero => exact fun a _ => by rw [calls, List.take_zero]
  | succ n ih =>
    intro a hn
    have hlt : a.position < a.indices.length := by omega
    have hnext : a.next = .ok (a.indices[a.position], { a with position := a.position + 1 }) := by
      rw [next, if_neg (Nat.not_le.mpr hlt), List.getD_eq_getElem _ _ hlt]
    have hrest := ih { a with position := a.position + 1 } (by simp only; omega)
    rw [calls, hnext, ok_bind]
    dsimp only
    rw [hrest, List.drop_eq_getElem_cons hlt, List.take_succ_cons]
    rfl

/-- What is created is an allocator of shuffled indices. -/
theorem isShuffled_of_create (h4 : ∀ input, 4 ≤ (hasher input SEED_HASH_ALGORITHM).length)
    {options : StatusListIndexAllocatorState} (hpos : 0 < options.length)
    (hmax : options.length ≤ 0xffffffff) (hseed : options.seed ≠ [])
    (hposition : options.position ≤ options.length)
    {result : Except StatusListError StatusListIndexAllocator}
    (h : create hasher fuel options = some result) :
    ∃ a, result = .ok a ∧ IsShuffled hasher fuel a ∧ a.position = options.position ∧
      a.indices.Perm (List.range options.length) := by
  unfold create at h
  rw [validate_ok hpos hmax hseed hposition] at h
  obtain ⟨shuffled, hshuffle, rfl⟩ := Option.map_eq_some_iff.mp h
  cases shuffled with
  | error e => exact absurd hshuffle (shuffle_ne_error h4)
  | ok indices =>
    have hperm := shuffle_perm (by rw [List.length_range]; omega) hshuffle
    have hlength : indices.length = options.length := by rw [hperm.length_eq, List.length_range]
    refine ⟨{ indices, seed := options.seed, position := options.position }, rfl, ?_, rfl, hperm⟩
    exact {
      pos := hlength ▸ hpos, length_le := hlength ▸ hmax, seed := hseed,
      position := hlength ▸ hposition
      shuffle := by
        rw [hlength]
        exact hshuffle }

/-- An allocator is created if the hash stream keeps offering numbers that are not rejected. An
allocator that is created has a permutation of the indices. Over every run, with restarts at any
point, it hands out no index twice, the same ones as calls without restarts, and from position 0 all
of them before a call throws; a restart gives the same allocator. -/
theorem allocation_of_shuffle (hasher : Hasher)
    (h4 : ∀ input, 4 ≤ (hasher input SEED_HASH_ALGORITHM).length)
    (options : StatusListIndexAllocatorState) (hpos : 0 < options.length)
    (hmax : options.length ≤ 0xffffffff) (hseed : options.seed ≠ [])
    (hposition : options.position ≤ options.length) :
    (Offers hasher options.length { seed := options.seed } →
      ∃ fuel a, create hasher fuel options = some (.ok a)) ∧
      ∀ fuel result, create hasher fuel options = some result → ∃ a, result = .ok a ∧
        a.indices.Perm (List.range options.length) ∧
        ∀ s, Reachable hasher a s → s.returned.Nodup ∧ calls s.returned.length a = .ok s.returned ∧
          (options.position = 0 → s.exhausted → s.returned.Perm (List.range options.length)) ∧
          create hasher fuel s.allocator.getState = some (.ok s.allocator) := by
  constructor
  · intro hoffers
    obtain ⟨fuel, indices, hshuffle⟩ :=
      @exists_shuffle hasher options.length _ _ (List.range options.length)
        (Nat.sub_lt hpos one_pos) hoffers
    refine ⟨fuel, { indices, seed := options.seed, position := options.position }, ?_⟩
    rw [create, validate_ok hpos hmax hseed hposition]
    dsimp only
    rw [hshuffle]
    rfl
  · intro fuel result hcreate
    obtain ⟨a, rfl, ha, hstart, hperm⟩ := isShuffled_of_create h4 hpos hmax hseed hposition hcreate
    refine ⟨a, rfl, hperm, fun s hs => ?_⟩
    have h := Handed.reachable ha hs
    have hnodup : a.indices.Nodup := hperm.nodup_iff.mpr List.nodup_range
    have hle := h.le_position
    have hlength : s.returned.length = s.allocator.position - a.position := by
      have hposition_le := h.position_le
      rw [h.returned, List.length_take, List.length_drop]
      omega
    refine ⟨?_, ?_, fun hzero hexhausted => ?_, ?_⟩
    · rw [h.returned]
      exact hnodup.sublist ((List.take_sublist _ _).trans (List.drop_sublist _ _))
    · have hposition_le := h.position_le
      rw [hlength, calls_eq _ a (by omega), h.returned]
    · rw [h.returned, hstart, hzero, h.exhausted hexhausted, List.drop_zero, Nat.sub_zero,
        List.take_length]
      exact hperm
    · have hshuffled : IsShuffled hasher fuel s.allocator := by
        rw [h.allocator]
        exact ⟨ha.pos, ha.length_le, ha.seed, h.position_le, ha.shuffle⟩
      exact hshuffled.create_getState

end

/-- A hasher that returns the same four bytes for every input. -/
def constantHasher (digest : List UInt8) : Hasher := fun _ _ => digest

/-- Every digest is used up by one number. -/
theorem nextUint32_constantHasher {digest : List UInt8} (hdigest : digest.length = 4)
    {random : SeededRandom} (hused : random.buffer = [] ∨ random.bufferOffset = 4)
    (hlength : random.buffer.length ≤ 4) :
    ∃ random', nextUint32 (constantHasher digest) random = .ok (fromBytes digest, random') ∧
      random'.bufferOffset = 4 ∧ random'.buffer.length ≤ 4 := by
  have hrefill : random.bufferOffset + 4 > random.buffer.length := by
    rcases hused with hempty | hoffset
    · simp [hempty]
    · omega
  have henough : ¬(constantHasher digest
      (random.seed ++ toBytes random.counter 4) SEED_HASH_ALGORITHM).length < 4 :=
    Nat.not_lt.mpr hdigest.ge
  refine ⟨{ random with counter := random.counter + 1, buffer := digest, bufferOffset := 4 }, ?_,
    rfl, hdigest.le⟩
  rw [nextUint32, refill, if_pos hrefill]
  dsimp only
  rw [if_neg henough, ok_bind]
  dsimp only
  rw [List.drop_zero, constantHasher, List.take_of_length_le hdigest.le]
  rfl

theorem nthUint32_constantHasher {digest : List UInt8} (hdigest : digest.length = 4) (n : ℕ) :
    ∀ {random : SeededRandom},
    (random.buffer = [] ∨ random.bufferOffset = 4) → random.buffer.length ≤ 4 →
      nthUint32 (constantHasher digest) n random = .ok (fromBytes digest) := by
  induction n with
  | zero =>
    intro random hused hlength
    obtain ⟨random', hnext, -, -⟩ := nextUint32_constantHasher hdigest hused hlength
    rw [nthUint32, hnext]
    rfl
  | succ n ih =>
    intro random hused hlength
    obtain ⟨random', hnext, hused', hlength'⟩ := nextUint32_constantHasher hdigest hused hlength
    rw [nthUint32, hnext, ok_bind]
    exact ih (.inr hused') hlength'

/-- A hasher whose numbers are all zero. -/
def zeroHasher : Hasher := constantHasher [0, 0, 0, 0]

theorem offers_zeroHasher (length : ℕ) (hmax : length ≤ 0xffffffff) (seed : List UInt8) :
    Offers zeroHasher length { seed } := by
  intro maxExclusive htwo hle n
  refine ⟨n, le_rfl, 0, limit_pos (by rw [UINT32_RANGE]; omega) (by omega), ?_⟩
  exact nthUint32_constantHasher rfl n (.inl rfl) (by simp)

/-- A list of three statuses. -/
theorem allocation_of_shuffle_three : ∃ fuel a, create zeroHasher fuel ⟨3, 0, [1]⟩ = some (.ok a) ∧
    a.indices.Perm (List.range 3) := by
  obtain ⟨hcreated, hruns⟩ :=
    allocation_of_shuffle zeroHasher (fun _ => le_rfl) ⟨3, 0, [1]⟩ (by decide) (by decide)
      (by decide) (by decide)
  obtain ⟨fuel, a, ha⟩ := hcreated (offers_zeroHasher 3 (by decide) [1])
  obtain ⟨a', ha', hperm, -⟩ := hruns fuel _ ha
  obtain rfl : a = a' := Except.ok.inj ha'
  exact ⟨fuel, a, ha, hperm⟩

/-- A hasher whose numbers are all the last one, that the limit of three excludes. -/
def onesHasher : Hasher := constantHasher [255, 255, 255, 255]

theorem nextInt_onesHasher (fuel : ℕ) :
    ∀ {random : SeededRandom}, (random.buffer = [] ∨ random.bufferOffset = 4) →
    random.buffer.length ≤ 4 → nextInt onesHasher 3 fuel random = none := by
  induction fuel with
  | zero => exact fun _ _ => rfl
  | succ fuel ih =>
    intro random hused hlength
    obtain ⟨random', hnext, hused', hlength'⟩ :=
      @nextUint32_constantHasher [255, 255, 255, 255] rfl _ hused hlength
    rw [nextInt, onesHasher, hnext]
    exact (if_pos (by decide)).trans (ih (.inr hused') hlength')

/-- No allocator is created where all the numbers are rejected. -/
theorem create_onesHasher : (∀ input, 4 ≤ (onesHasher input SEED_HASH_ALGORITHM).length) ∧
    ∀ fuel, create onesHasher fuel ⟨3, 0, [1]⟩ = none := by
  refine ⟨fun _ => le_rfl, fun fuel => ?_⟩
  have hnext := @nextInt_onesHasher fuel { seed := [1] } (.inl rfl) (by simp)
  have hshuffle : shuffle onesHasher fuel 2 (List.range 3) { seed := [1] } = none := by
    rw [shuffle, hnext]
  have hvalid : validate ⟨3, 0, [1]⟩ = .ok () := rfl
  rw [create, hvalid]
  exact congrArg (Option.map _) hshuffle

end StatusListIndexAllocator

end IdentityCommon.TokenStatusList
