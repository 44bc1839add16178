import Mathlib.Data.Finset.Card
import Mathlib.Data.Finset.Sum
import Mathlib.Data.Fintype.Card
import Mathlib.Algebra.Order.BigOperators.Group.Finset

/-!
# Matchings in bipartite graphs

Matchings of a finite set of left vertices, given as partial assignments of right vertices.

## Main definitions

- `Matching` — an injective partial assignment along edges
- `Matching.IsMaximum` — no matching assigns to more vertices
- `Matching.LeftOut` — the vertices that some maximum matching leaves out
- `Matching.Alternates` — the vertices that alternating paths reach from unassigned ones
- `Shift` — reassignment along an augmenting path

## Main results

- `Matching.isMaximum_of_closed` — a set of vertices with few neighbours certifies a maximum
- `Matching.leftOut_iff` — the vertices that some maximum matching leaves out are
  those that alternating paths reach
- `Shift.injectiveOff`, `Shift.not_mem_closed` — an augmenting path gives a matching of one vertex
  more, and avoids sets that have no neighbours to spare
-/

namespace IdentityCommon.BipartiteMatching

variable {α β : Type*}

/-- A partial assignment that takes every right vertex at most once. -/
structure Matching (adj : α → β → Prop) (s : Finset α) where
  assign : α → Option β
  mem : ∀ {x y}, assign x = some y → x ∈ s ∧ adj x y
  injective : ∀ {x x' y}, assign x = some y → assign x' = some y → x = x'

namespace Matching

variable {adj : α → β → Prop} {s : Finset α}

/-- The vertices that are assigned to. -/
def covered (m : Matching adj s) : Finset α := s.filter fun x => (m.assign x).isSome

theorem mem_covered {m : Matching adj s} {x : α} : x ∈ m.covered ↔ ∃ y, m.assign x = some y := by
  rw [covered, Finset.mem_filter, Option.isSome_iff_exists]
  exact ⟨fun h => h.2, fun ⟨y, hy⟩ => ⟨(m.mem hy).1, y, hy⟩⟩

theorem covered_subset (m : Matching adj s) : m.covered ⊆ s := Finset.filter_subset _ _

def IsMaximum (m : Matching adj s) : Prop := ∀ m' : Matching adj s, m'.covered.card ≤ m.covered.card

/-- An injective assignment of every vertex. -/
def total {f : α → β} (hf : Set.InjOn f s) (hadj : ∀ x ∈ s, adj x (f x)) [DecidableEq α] :
    Matching adj s where
  assign x := if x ∈ s then some (f x) else none
  mem := by
    intro x y h
    split at h
    case isTrue hx =>
      cases h
      exact ⟨hx, hadj x hx⟩
    case isFalse => cases h
  injective := by
    intro x x' y h h'
    split at h
    case isTrue hx =>
      split at h'
      case isTrue hx' => exact hf hx hx' ((Option.some.inj h).trans (Option.some.inj h').symm)
      case isFalse => cases h'
    case isFalse => cases h

theorem covered_total {f : α → β} (hf : Set.InjOn f s) (hadj : ∀ x ∈ s, adj x (f x))
    [DecidableEq α] :
    (total hf hadj).covered = s := by
  ext x
  rw [mem_covered]
  constructor
  · exact fun ⟨_, hy⟩ => ((total hf hadj).mem hy).1
  · exact fun hx => ⟨f x, if_pos hx⟩

/-- A maximum matching assigns to every vertex if some injective assignment does. -/
theorem IsMaximum.covered_eq_iff {m : Matching adj s} (hm : m.IsMaximum) [DecidableEq α]
    [Inhabited β] :
    m.covered = s ↔ ∃ f : α → β, Set.InjOn f s ∧ ∀ x ∈ s, adj x (f x) := by
  constructor
  · intro hall
    have hassign : ∀ x ∈ s, m.assign x = some ((m.assign x).getD default) := by
      intro x hx
      obtain ⟨y, hy⟩ := mem_covered.mp (hall ▸ hx)
      rw [hy, Option.getD_some]
    refine ⟨fun x => (m.assign x).getD default, fun x hx x' hx' heq => ?_,
      fun x hx => (m.mem (hassign x hx)).2⟩
    exact m.injective (hassign x hx) ((hassign x' hx').trans (congrArg some heq.symm))
  · rintro ⟨f, hf, hadj⟩
    have hle := hm (total hf hadj)
    rw [covered_total] at hle
    exact Finset.eq_of_subset_of_card_le m.covered_subset hle

/-- Some maximum matching leaves a vertex out. -/
def LeftOut (adj : α → β → Prop) (s : Finset α) (x : α) : Prop :=
  ∃ m : Matching adj s, m.IsMaximum ∧ x ∈ s ∧ m.assign x = none

/-! ## Certificates -/

/-- A set of vertices has at most as many assigned vertices as it has neighbours. -/
theorem card_inter_covered_le (m : Matching adj s) {t : Finset α} {n : Finset β}
    (hn : ∀ x ∈ t, ∀ y, adj x y → y ∈ n) [DecidableEq α] : (t ∩ m.covered).card ≤ n.card := by
  classical
  have hsome : ∀ x ∈ t ∩ m.covered, ∃ y ∈ n, m.assign x = some y := by
    intro x hx
    obtain ⟨ht, hc⟩ := Finset.mem_inter.mp hx
    obtain ⟨y, hy⟩ := mem_covered.mp hc
    exact ⟨y, hn x ht y (m.mem hy).2, hy⟩
  have hle : (t ∩ m.covered).card ≤ (n.image some).card := by
    apply Finset.card_le_card_of_injOn m.assign
    · intro x hx
      obtain ⟨y, hy, hassign⟩ := hsome x hx
      rw [hassign]
      exact Finset.mem_coe.mpr (Finset.mem_image_of_mem _ hy)
    · intro x hx x' hx' heq
      obtain ⟨y, -, hassign⟩ := hsome x hx
      exact m.injective hassign (heq ▸ hassign)
  exact hle.trans Finset.card_image_le

variable [DecidableEq α]

theorem card_covered_le (m : Matching adj s) {t : Finset α} {n : Finset β}
    (hn : ∀ x ∈ t, ∀ y, adj x y → y ∈ n) : m.covered.card ≤ (s \ t).card + n.card := by
  have hsplit := Finset.card_sdiff_add_card_inter m.covered t
  have hdiff : (m.covered \ t).card ≤ (s \ t).card :=
    Finset.card_le_card (Finset.sdiff_subset_sdiff m.covered_subset (Finset.Subset.refl t))
  have hinter := m.card_inter_covered_le hn
  rw [Finset.inter_comm] at hinter
  omega

theorem card_le_of_taken (m : Matching adj s) {t : Finset α} {n : Finset β}
    (htaken : ∀ y ∈ n, ∃ x ∈ t, m.assign x = some y) : n.card ≤ (m.covered ∩ t).card := by
  classical
  have himage : n ⊆ (m.covered ∩ t).biUnion fun x => (m.assign x).toFinset := by
    intro y hy
    obtain ⟨x, hx, hassign⟩ := htaken y hy
    refine Finset.mem_biUnion.mpr ⟨x, Finset.mem_inter.mpr ⟨mem_covered.mpr ⟨y, hassign⟩, hx⟩, ?_⟩
    rw [hassign, Option.mem_toFinset]
    rfl
  refine (Finset.card_le_card himage).trans (Finset.card_biUnion_le.trans ?_)
  refine (Finset.sum_le_card_nsmul _ _ 1 fun x _ => ?_).trans (by simp)
  cases m.assign x with
  | none => exact Nat.zero_le 1
  | some y => exact le_of_eq (Finset.card_singleton y)

theorem sdiff_subset_covered (m : Matching adj s) {t : Finset α}
    (hout : ∀ x ∈ s, m.assign x = none → x ∈ t) : s \ t ⊆ m.covered \ t := by
  intro x hx
  obtain ⟨hs, ht⟩ := Finset.mem_sdiff.mp hx
  refine Finset.mem_sdiff.mpr ⟨mem_covered.mpr ?_, ht⟩
  cases hassign : m.assign x with
  | none => exact absurd (hout x hs hassign) ht
  | some y => exact ⟨y, rfl⟩

/-- A matching is maximum when all that it leaves out is in a set whose neighbours are all taken by
vertices of that set. -/
theorem isMaximum_of_closed (m : Matching adj s) {t : Finset α} {n : Finset β}
    (hout : ∀ x ∈ s, m.assign x = none → x ∈ t) (hn : ∀ x ∈ t, ∀ y, adj x y → y ∈ n)
    (htaken : ∀ y ∈ n, ∃ x ∈ t, m.assign x = some y) : m.IsMaximum := by
  intro m'
  have hle := m'.card_covered_le hn
  have hcard := m.card_le_of_taken htaken
  have hdiff := Finset.card_le_card (m.sdiff_subset_covered hout)
  have hsplit := Finset.card_sdiff_add_card_inter m.covered t
  omega

/-! ## Exchange -/

/-- A vertex takes over the right vertex of another one. -/
def reassign (m : Matching adj s) {w x : α} {y : β} (hw : w ∈ s) (hadj : adj w y)
    (hsome : m.assign x = some y) : Matching adj s where
  assign := Function.update (Function.update m.assign x none) w (some y)
  mem := by
    intro z y' h
    by_cases hz : z = w
    · rw [hz, Function.update_self] at h
      cases h
      exact hz ▸ ⟨hw, hadj⟩
    · rw [Function.update_of_ne hz] at h
      by_cases hx : z = x
      · rw [hx, Function.update_self] at h
        cases h
      · rw [Function.update_of_ne hx] at h
        exact m.mem h
  injective := by
    have hother : ∀ z y', z ≠ w →
        Function.update (Function.update m.assign x none) w (some y) z = some y' →
        m.assign z = some y' ∧ y' ≠ y := by
      intro z y' hz h
      rw [Function.update_of_ne hz] at h
      by_cases hx : z = x
      · rw [hx, Function.update_self] at h
        cases h
      · rw [Function.update_of_ne hx] at h
        exact ⟨h, fun heq => hx (m.injective h (heq ▸ hsome))⟩
    intro z z' y' h h'
    by_cases hz : z = w
    · by_cases hz' : z' = w
      · rw [hz, hz']
      · rw [hz, Function.update_self] at h
        cases h
        exact absurd rfl (hother z' y hz' h').2
    · by_cases hz' : z' = w
      · rw [hz', Function.update_self] at h'
        cases h'
        exact absurd rfl (hother z y hz h).2
      · exact m.injective (hother z y' hz h).1 (hother z' y' hz' h').1

/-- An unassigned vertex takes a right vertex that no vertex has. -/
def extend (m : Matching adj s) {w : α} {y : β} (hw : w ∈ s) (hadj : adj w y)
    (hfree : ∀ x, m.assign x ≠ some y) : Matching adj s where
  assign := Function.update m.assign w (some y)
  mem := by
    intro z y' h
    by_cases hz : z = w
    · rw [hz, Function.update_self] at h
      cases h
      exact hz ▸ ⟨hw, hadj⟩
    · rw [Function.update_of_ne hz] at h
      exact m.mem h
  injective := by
    intro z z' y' h h'
    by_cases hz : z = w <;> by_cases hz' : z' = w
    · rw [hz, hz']
    · rw [hz, Function.update_self] at h
      rw [Function.update_of_ne hz'] at h'
      exact absurd (h'.trans h.symm) (hfree z')
    · rw [Function.update_of_ne hz] at h
      rw [hz', Function.update_self] at h'
      exact absurd (h.trans h'.symm) (hfree z)
    · rw [Function.update_of_ne hz] at h
      rw [Function.update_of_ne hz'] at h'
      exact m.injective h h'

theorem covered_extend (m : Matching adj s) {w : α} {y : β} (hw : w ∈ s) (hadj : adj w y)
    (hfree : ∀ x, m.assign x ≠ some y) : (m.extend hw hadj hfree).covered = insert w m.covered := by
  ext z
  rw [Finset.mem_insert, mem_covered, mem_covered]
  by_cases hz : z = w
  · exact ⟨fun _ => Or.inl hz, fun _ => ⟨y, hz ▸ Function.update_self ..⟩⟩
  · simp only [extend, Function.update_of_ne hz, hz, false_or]

theorem covered_reassign (m : Matching adj s) {w x : α} {y : β} (hw : w ∈ s) (hadj : adj w y)
    (hsome : m.assign x = some y) :
    (m.reassign hw hadj hsome).covered = insert w (m.covered.erase x) := by
  ext z
  rw [Finset.mem_insert, Finset.mem_erase, mem_covered, mem_covered]
  by_cases hz : z = w
  · exact ⟨fun _ => Or.inl hz, fun _ => ⟨y, hz ▸ Function.update_self ..⟩⟩
  · by_cases hx : z = x
    · subst hx
      simp only [reassign, Function.update_of_ne hz, Function.update_self, hz, ne_eq, not_true,
        false_and, or_false, reduceCtorEq, exists_false]
    · simp only [reassign, Function.update_of_ne hz, Function.update_of_ne hx, hz, hx, ne_eq,
        not_false_eq_true, true_and, false_or]

theorem card_covered_reassign (m : Matching adj s) {w x : α} {y : β} (hw : w ∈ s) (hadj : adj w y)
    (hnone : m.assign w = none) (hsome : m.assign x = some y) :
    (m.reassign hw hadj hsome).covered.card = m.covered.card := by
  have hx : x ∈ m.covered := mem_covered.mpr ⟨y, hsome⟩
  have hwc : w ∉ m.covered := by
    intro hmem
    obtain ⟨y', hy'⟩ := mem_covered.mp hmem
    rw [hnone] at hy'
    cases hy'
  rw [covered_reassign, Finset.card_insert_of_notMem fun hmem => hwc (Finset.mem_of_mem_erase hmem),
    Finset.card_erase_add_one hx]

/-! ## Alternating paths -/

/-- An alternating path of `n` steps leads from an unassigned vertex to a vertex. -/
inductive AlternatesIn (m : Matching adj s) : ℕ → α → Prop
  | missed {x : α} : x ∈ s → m.assign x = none → AlternatesIn m 0 x
  | step {n : ℕ} {w x : α} {y : β} : AlternatesIn m n w → adj w y → m.assign x = some y →
    AlternatesIn m (n + 1) x

def Alternates (m : Matching adj s) (x : α) : Prop := ∃ n, m.AlternatesIn n x

omit [DecidableEq α] in
theorem AlternatesIn.mem {m : Matching adj s} {n : ℕ} {x : α} (h : m.AlternatesIn n x) : x ∈ s := by
  cases h with
  | missed hx _ => exact hx
  | step _ _ hsome => exact (m.mem hsome).1

/-- Reassigning along a shortest alternating path leaves its end out, and changes nothing further
away. -/
theorem AlternatesIn.exists_missing {m : Matching adj s} {n : ℕ} {x : α} (h : m.AlternatesIn n x)
    (hmin : ∀ k < n, ¬m.AlternatesIn k x) :
    ∃ m' : Matching adj s, m'.assign x = none ∧ m'.covered.card = m.covered.card ∧
      (∀ z y, m'.assign z = some y → ∃ z', m.assign z' = some y) ∧
      ∀ z, (∀ k ≤ n, ¬m.AlternatesIn k z) → m'.assign z = m.assign z := by
  induction h with
  | missed hx hnone => exact ⟨m, hnone, rfl, fun z _ hz => ⟨z, hz⟩, fun _ _ => rfl⟩
  | @step n w x y hw hadj hsome ih =>
    obtain ⟨m', hnone, hcard, himage, hfar⟩ :=
      ih fun k hk hw' => hmin (k + 1) (Nat.succ_lt_succ hk) (hw'.step hadj hsome)
    have hx : m'.assign x = some y := by
      rw [hfar x fun k hk hx => hmin k (Nat.lt_succ_of_le hk) hx, hsome]
    have hne : x ≠ w := by
      rintro rfl
      rw [hnone] at hx
      cases hx
    refine ⟨m'.reassign hw.mem hadj hx, ?_, ?_, ?_, ?_⟩
    · exact (Function.update_of_ne hne ..).trans (Function.update_self ..)
    · rw [card_covered_reassign _ _ _ hnone, hcard]
    · intro z y' hz
      by_cases hzw : z = w
      · rw [hzw] at hz
        cases (Function.update_self ..).symm.trans hz
        exact ⟨x, hsome⟩
      · have hz' := (Function.update_of_ne hzw ..).symm.trans hz
        by_cases hzx : z = x
        · rw [hzx, Function.update_self] at hz'
          cases hz'
        · rw [Function.update_of_ne hzx] at hz'
          exact himage z y' hz'
    · intro z hz
      have hzw : z ≠ w := fun heq => hz n (Nat.le_succ n) (heq ▸ hw)
      have hzx : z ≠ x := fun heq => hz (n + 1) (le_refl _) (heq ▸ hw.step hadj hsome)
      exact (Function.update_of_ne hzw ..).trans ((Function.update_of_ne hzx ..).trans
        (hfar z fun k hk => hz k (Nat.le_succ_of_le hk)))

theorem Alternates.exists_missing {m : Matching adj s} {x : α} (h : m.Alternates x) :
    ∃ m' : Matching adj s, m'.assign x = none ∧ m'.covered.card = m.covered.card ∧
      ∀ z y, m'.assign z = some y → ∃ z', m.assign z' = some y := by
  classical
  have hfind := Nat.find_spec h
  obtain ⟨m', hnone, hcard, himage, -⟩ := hfind.exists_missing fun k hk => Nat.find_min h hk
  exact ⟨m', hnone, hcard, himage⟩

omit [DecidableEq α] in
theorem Alternates.mem {m : Matching adj s} {x : α} (h : m.Alternates x) : x ∈ s :=
  h.elim fun _ => AlternatesIn.mem

/-- In a maximum matching, every neighbour of a vertex that an alternating path reaches is taken. -/
theorem Alternates.exists_assign {m : Matching adj s} (hm : m.IsMaximum) {x : α}
    (h : m.Alternates x) {y : β} (hadj : adj x y) :
    ∃ x', m.assign x' = some y ∧ m.Alternates x' := by
  by_contra hno
  have hfree : ∀ x', m.assign x' ≠ some y := by
    intro x' hx'
    obtain ⟨n, hn⟩ := h
    exact hno ⟨x', hx', n + 1, hn.step hadj hx'⟩
  obtain ⟨m', hnone, hcard, himage⟩ := h.exists_missing
  have hfree' : ∀ z, m'.assign z ≠ some y := fun z hz => (himage z y hz).elim hfree
  have hle := hm (m'.extend h.mem hadj hfree')
  rw [covered_extend, Finset.card_insert_of_notMem, hcard] at hle
  · omega
  · intro hmem
    obtain ⟨y', hy'⟩ := mem_covered.mp hmem
    rw [hnone] at hy'
    cases hy'

omit [DecidableEq α] in
/-- The vertices that some maximum matching leaves out are those that alternating paths reach. -/
theorem leftOut_iff {m : Matching adj s} (hm : m.IsMaximum) {x : α} :
    LeftOut adj s x ↔ m.Alternates x := by
  classical
  constructor
  · rintro ⟨m', hm', hx, hnone⟩
    by_contra hno
    let t := s.filter m.Alternates
    let n := t.biUnion fun x => (m.assign x).toFinset
    have htaken : ∀ y ∈ n, ∃ x ∈ t, m.assign x = some y := by
      intro y hy
      obtain ⟨x', hx', hy⟩ := Finset.mem_biUnion.mp hy
      exact ⟨x', hx', Option.mem_toFinset.mp hy⟩
    have hn : ∀ x ∈ t, ∀ y, adj x y → y ∈ n := by
      intro x' hx' y hadj
      obtain ⟨w, hw, halt⟩ := (Finset.mem_filter.mp hx').2.exists_assign hm hadj
      exact Finset.mem_biUnion.mpr ⟨w, Finset.mem_filter.mpr ⟨halt.mem, halt⟩,
        Option.mem_toFinset.mpr hw⟩
    have hout : ∀ x ∈ s, m.assign x = none → x ∈ t := fun x' hx' hnone' =>
      Finset.mem_filter.mpr ⟨hx', 0, .missed hx' hnone'⟩
    have hxt : x ∈ s \ t := Finset.mem_sdiff.mpr ⟨hx, fun hmem => hno (Finset.mem_filter.mp hmem).2⟩
    have hsub : m'.covered \ t ⊆ (s \ t).erase x := by
      intro z hz
      obtain ⟨hc, ht⟩ := Finset.mem_sdiff.mp hz
      refine Finset.mem_erase.mpr ⟨?_, Finset.mem_sdiff.mpr ⟨m'.covered_subset hc, ht⟩⟩
      rintro rfl
      obtain ⟨y, hy⟩ := mem_covered.mp hc
      rw [hnone] at hy
      cases hy
    -- outside the set one vertex more is left out than it can be
    have h₁ := Finset.card_le_card hsub
    rw [Finset.card_erase_of_mem hxt] at h₁
    have h₂ := Finset.card_pos.mpr ⟨x, hxt⟩
    have h₃ := m'.card_inter_covered_le hn
    have h₄ := m.card_le_of_taken htaken
    have h₅ := Finset.card_le_card (m.sdiff_subset_covered hout)
    have h₆ := Finset.card_sdiff_add_card_inter m.covered t
    have h₇ := Finset.card_sdiff_add_card_inter m'.covered t
    have h₈ := hm' m
    rw [Finset.inter_comm] at h₃
    omega
  · intro h
    obtain ⟨m', hnone, hcard, -⟩ := h.exists_missing
    exact ⟨m', fun m'' => hcard ▸ hm m'', h.mem, hnone⟩

/-! ## Renaming -/

section Renaming

variable {α' β' : Type*} {adj' : α' → β' → Prop} {s' : Finset α'} {σ : α ≃ α'} {ρ : β ≃ β'}

omit [DecidableEq α] in
/-- A matching of a graph is one of the graph with other names. -/
def rename (m : Matching adj s) (hadj : ∀ x y, adj' (σ x) (ρ y) ↔ adj x y)
    (hs : ∀ x, σ x ∈ s' ↔ x ∈ s) : Matching adj' s' where
  assign x := (m.assign (σ.symm x)).map ρ
  mem := by
    intro x y h
    obtain ⟨y', hy', rfl⟩ := Option.map_eq_some_iff.mp h
    obtain ⟨hmem, hedge⟩ := m.mem hy'
    rw [← hs, σ.apply_symm_apply] at hmem
    rw [← hadj, σ.apply_symm_apply] at hedge
    exact ⟨hmem, hedge⟩
  injective := by
    intro x x' y h h'
    obtain ⟨y₁, hy₁, heq₁⟩ := Option.map_eq_some_iff.mp h
    obtain ⟨y₂, hy₂, heq₂⟩ := Option.map_eq_some_iff.mp h'
    cases ρ.injective (heq₁.trans heq₂.symm)
    exact σ.symm.injective (m.injective hy₁ hy₂)

variable (hadj : ∀ x y, adj' (σ x) (ρ y) ↔ adj x y) (hs : ∀ x, σ x ∈ s' ↔ x ∈ s)
include hadj hs

omit [DecidableEq α] in
theorem card_covered_rename (m : Matching adj s) :
    (m.rename hadj hs).covered.card = m.covered.card := by
  have hcovered : (m.rename hadj hs).covered = m.covered.map σ.toEmbedding := by
    ext x
    rw [mem_covered, Finset.mem_map_equiv, mem_covered]
    simp only [rename, Option.map_eq_some_iff]
    exact ⟨fun ⟨_, y, hy, _⟩ => ⟨y, hy⟩, fun ⟨y, hy⟩ => ⟨ρ y, y, hy, rfl⟩⟩
  rw [hcovered, Finset.card_map]

omit [DecidableEq α] in
theorem LeftOut.rename {x : α} (h : LeftOut adj s x) : LeftOut adj' s' (σ x) := by
  obtain ⟨m, hm, hx, hnone⟩ := h
  refine ⟨m.rename hadj hs, fun m' => ?_, (hs x).mpr hx, ?_⟩
  · have hadj' : ∀ x y, adj (σ.symm x) (ρ.symm y) ↔ adj' x y := fun x y => by
      rw [← hadj, σ.apply_symm_apply, ρ.apply_symm_apply]
    have hs' : ∀ x, σ.symm x ∈ s ↔ x ∈ s' := fun x => by rw [← hs, σ.apply_symm_apply]
    rw [card_covered_rename, ← card_covered_rename hadj' hs' m']
    exact hm _
  · simp only [Matching.rename, σ.symm_apply_apply, hnone, Option.map_none]

omit [DecidableEq α] in
theorem leftOut_rename_iff {x : α} : LeftOut adj' s' (σ x) ↔ LeftOut adj s x := by
  refine ⟨fun h => ?_, fun h => h.rename hadj hs⟩
  have hadj' : ∀ x y, adj (σ.symm x) (ρ.symm y) ↔ adj' x y := fun x y => by
    rw [← hadj, σ.apply_symm_apply, ρ.apply_symm_apply]
  have hback := h.rename hadj' fun x => by rw [← hs, σ.apply_symm_apply]
  rwa [σ.symm_apply_apply] at hback

end Renaming

end Matching

/-! ## Augmenting paths -/

variable [DecidableEq β] {adj : α → β → Prop} {t t' : β → Option α} {x : α} {path : List β}

/-- Reassignment along an augmenting path: a vertex takes a right vertex that is free, or one whose
vertex takes another one further along. -/
inductive Shift (adj : α → β → Prop) (t : β → Option α) : α → List β → (β → Option α) → Prop
  | free {x : α} {y : β} : adj x y → t y = none → Shift adj t x [y] (Function.update t y (some x))
  | move {x x' : α} {y : β} {path : List β} {t' : β → Option α} : adj x y →
      t y = some x' → y ∉ path →
    Shift adj t x' path t' → Shift adj t x (y :: path) (Function.update t' y (some x))

/-- Every right vertex of a set is taken, and all that its vertex is adjacent to is in the set. -/
def Closed (adj : α → β → Prop) (t : β → Option α) (n : Set β) : Prop :=
  ∀ y ∈ n, ∃ x, t y = some x ∧ ∀ y', adj x y' → y' ∈ n

namespace Shift

theorem eq_of_not_mem (h : Shift adj t x path t') {y : β} (hy : y ∉ path) : t' y = t y := by
  induction h with
  | free _ _ => exact Function.update_of_ne (List.ne_of_not_mem_cons hy) ..
  | move _ _ _ _ ih =>
    exact (Function.update_of_ne (List.ne_of_not_mem_cons hy) ..).trans
      (ih (List.not_mem_of_not_mem_cons hy))

theorem adj_of_eq_some (h : Shift adj t x path t') (ht : ∀ y x, t y = some x → adj x y) :
    ∀ y x, t' y = some x → adj x y := by
  have hupdate : ∀ {t : β → Option α} {x : α} {y : β}, adj x y → (∀ y x, t y = some x → adj x y) →
      ∀ y' x', Function.update t y (some x) y' = some x' → adj x' y' := by
    intro t x y hadj ht y' x' h
    by_cases hy : y' = y
    · rw [hy, Function.update_self] at h
      cases h
      exact hy ▸ hadj
    · rw [Function.update_of_ne hy] at h
      exact ht y' x' h
  induction h with
  | free hadj _ => exact hupdate hadj ht
  | move hadj _ _ _ ih => exact hupdate hadj ih

/-- No augmenting path starts at a vertex with all its neighbours in a closed set. -/
theorem not_subset (h : Shift adj t x path t') {n : Set β} (hn : Closed adj t n) :
    ¬∀ y, adj x y → y ∈ n := by
  induction h with
  | @free x y hadj hfree =>
    intro hall
    obtain ⟨x', hx', -⟩ := hn y (hall y hadj)
    rw [hfree] at hx'
    cases hx'
  | @move x x' y path t' hadj htaken _ _ ih =>
    intro hall
    obtain ⟨x'', hx'', hsub⟩ := hn y (hall y hadj)
    cases htaken.symm.trans hx''
    exact ih hsub

/-- An augmenting path avoids a closed set. -/
theorem not_mem_closed (h : Shift adj t x path t') {n : Set β} (hn : Closed adj t n) :
    ∀ y ∈ path, y ∉ n := by
  induction h with
  | @free x y _ hfree =>
    intro y' hy' hmem
    rw [List.mem_singleton.mp hy'] at hmem
    obtain ⟨x', hx', -⟩ := hn y hmem
    rw [hfree] at hx'
    cases hx'
  | @move x x' y path t' _ htaken _ h ih =>
    intro y' hy' hmem
    obtain heq | hpath := List.mem_cons.mp hy'
    · obtain ⟨x'', hx'', hsub⟩ := hn y' hmem
      rw [heq, htaken] at hx''
      cases hx''
      exact h.not_subset hn hsub
    · exact ih y' hpath hmem

/-- No left vertex takes two right vertices outside of a set. -/
def InjectiveOff (e : Set β) (t : β → Option α) : Prop :=
  ∀ y y' x, y ∉ e → y' ∉ e → t y = some x → t y' = some x → y = y'

theorem InjectiveOff.update {e : Set β} {u : β → Option α} {x : α} {y : β}
    (hu : InjectiveOff (insert y e) u) (hx : ∀ y', y' ∉ insert y e → u y' ≠ some x) (hy : y ∉ e) :
    InjectiveOff e (Function.update u y (some x)) ∧
      ∀ z, (∃ y', y' ∉ e ∧ Function.update u y (some x) y' = some z) ↔
        z = x ∨ ∃ y', y' ∉ insert y e ∧ u y' = some z := by
  have hmem : ∀ {y'}, y' ≠ y → y' ∉ e → y' ∉ insert y e := fun hne he hmem => hmem.elim hne he
  constructor
  · intro y₁ y₂ z h₁ h₂ hz₁ hz₂
    by_cases hy₁ : y₁ = y <;> by_cases hy₂ : y₂ = y
    · rw [hy₁, hy₂]
    · rw [hy₁, Function.update_self] at hz₁
      cases hz₁
      rw [Function.update_of_ne hy₂] at hz₂
      exact absurd hz₂ (hx y₂ (hmem hy₂ h₂))
    · rw [hy₂, Function.update_self] at hz₂
      cases hz₂
      rw [Function.update_of_ne hy₁] at hz₁
      exact absurd hz₁ (hx y₁ (hmem hy₁ h₁))
    · rw [Function.update_of_ne hy₁] at hz₁
      rw [Function.update_of_ne hy₂] at hz₂
      exact hu y₁ y₂ z (hmem hy₁ h₁) (hmem hy₂ h₂) hz₁ hz₂
  · intro z
    constructor
    · rintro ⟨y', he, hz⟩
      by_cases hy' : y' = y
      · rw [hy', Function.update_self] at hz
        exact Or.inl (Option.some.inj hz).symm
      · rw [Function.update_of_ne hy'] at hz
        exact Or.inr ⟨y', hmem hy' he, hz⟩
    · rintro (rfl | ⟨y', he, hz⟩)
      · exact ⟨y, hy, Function.update_self ..⟩
      · have hne : y' ≠ y := fun heq => he (Or.inl heq)
        exact ⟨y', fun hmem => he (Or.inr hmem), (Function.update_of_ne hne ..).trans hz⟩

/-- Outside of a set that the path avoids, one left vertex more takes a right vertex. -/
theorem injectiveOff (h : Shift adj t x path t') {e : Set β} (hpath : ∀ y ∈ path, y ∉ e)
    (ht : InjectiveOff e t) (hx : ∀ y, y ∉ e → t y ≠ some x) :
    InjectiveOff e t' ∧ ∀ z, (∃ y, y ∉ e ∧ t' y = some z) ↔ z = x ∨ ∃ y, y ∉ e ∧ t y = some z := by
  induction h generalizing e with
  | @free x y hadj hfree =>
    have hoff : InjectiveOff (insert y e) t := fun y₁ y₂ z h₁ h₂ =>
      ht y₁ y₂ z (fun hmem => h₁ (Or.inr hmem)) (fun hmem => h₂ (Or.inr hmem))
    obtain ⟨hinj, hvalues⟩ :=
      hoff.update (x := x) (fun y' hy' => hx y' fun hmem => hy' (Or.inr hmem))
      (hpath y List.mem_cons_self)
    refine ⟨hinj, fun z => (hvalues z).trans (or_congr_right ⟨?_, ?_⟩)⟩
    · exact fun ⟨y', hy', hz⟩ => ⟨y', fun hmem => hy' (Or.inr hmem), hz⟩
    · rintro ⟨y', hy', hz⟩
      refine ⟨y', fun hmem => hmem.elim (fun heq => ?_) hy', hz⟩
      rw [heq, hfree] at hz
      cases hz
  | @move x x' y path t' hadj htaken hy h ih =>
    have hye : y ∉ e := hpath y List.mem_cons_self
    -- the vertex that moves on takes nothing but `y`
    have hx' : ∀ y', y' ∉ insert y e → t y' ≠ some x' := fun y' hy' hz =>
      hy' (Or.inl (ht y' y x' (fun hmem => hy' (Or.inr hmem)) hye hz htaken))
    obtain ⟨hinj, hvalues⟩ := ih (e := insert y e)
      (fun y' hy' hmem => hmem.elim (fun heq => hy (heq ▸ hy'))
        (hpath y' (List.mem_cons_of_mem _ hy')))
      (fun y₁ y₂ z h₁ h₂ => ht y₁ y₂ z (fun hmem => h₁ (Or.inr hmem))
        (fun hmem => h₂ (Or.inr hmem))) hx'
    have hsame : ∀ z, (∃ y', y' ∉ insert y e ∧ t' y' = some z) ↔ ∃ y', y' ∉ e ∧ t y' = some z := by
      intro z
      rw [hvalues z]
      constructor
      · rintro (rfl | ⟨y', hy', hz⟩)
        · exact ⟨y, hye, htaken⟩
        · exact ⟨y', fun hmem => hy' (Or.inr hmem), hz⟩
      · rintro ⟨y', hy', hz⟩
        by_cases heq : y' = y
        · rw [heq, htaken] at hz
          exact Or.inl (Option.some.inj hz).symm
        · exact Or.inr ⟨y', fun hmem => hmem.elim heq hy', hz⟩
    obtain ⟨hinj', hvalues'⟩ := hinj.update (x := x)
      (fun y' hy' hz => ((hsame x).mp ⟨y', hy', hz⟩).elim fun y'' h'' => hx y'' h''.1 h''.2) hye
    exact ⟨hinj', fun z => (hvalues' z).trans (or_congr_right (hsame z))⟩

end Shift

end IdentityCommon.BipartiteMatching
