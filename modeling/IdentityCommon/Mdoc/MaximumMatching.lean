import IdentityCommon.Lib.AssocList
import IdentityCommon.Lib.BipartiteMatching
import Mathlib.Data.List.Sort

/-!
# Matching documents to doc requests

Kuhn's algorithm, which finds a maximum matching by augmenting paths, and the search for the
documents that a maximum matching has too many of.

## Main definitions

- `augment` — one document more, along an augmenting path if there is one
- `maximumMatching` — the doc request that each matched document takes
- `findExcess` — the documents that alternating paths reach from unmatched ones

## Main results

- `augment_spec` — what a call finds, a path or a closed set
- `exists_maximumMatching` — the matching is found, and it is maximum
- `findExcess_spec` — the documents found are those that some maximum matching leaves out

## Design notes

A function that calls itself has a bound on the depth and is `none` beyond it; the bounds that the
callers pass are enough. Maps are association lists in the order of insertion.
-/

namespace IdentityCommon.Mdoc

open AssocList BipartiteMatching

/-- The doc requests that are taken, each with the document that takes it. -/
abbrev TakenBy := List (ℕ × ℕ)

/-- Whether an augmenting path was found, the doc requests visited and those taken. -/
abbrev Augmented := Bool × List ℕ × TakenBy

/-- The neighbours of a document in turn, until the document of one of them takes another one. -/
def tryNeighbours (augment : ℕ → List ℕ → TakenBy → Option Augmented) (documentIndex : ℕ) :
    List ℕ → List ℕ → TakenBy → Option Augmented
  | [], visited, takenBy => some (false, visited, takenBy)
  | docRequestIndex :: neighbours, visited, takenBy =>
    if docRequestIndex ∈ visited then tryNeighbours augment documentIndex neighbours visited takenBy
    else match takenBy.lookup docRequestIndex with
      | none => tryNeighbours augment documentIndex neighbours
          (visited ++ [docRequestIndex]) takenBy
      | some current => do
        let (found, visited, takenBy) ← augment current (visited ++ [docRequestIndex]) takenBy
        if found then some (true, visited, insert docRequestIndex documentIndex takenBy)
        else tryNeighbours augment documentIndex neighbours visited takenBy

def augment (neighbours : ℕ → List ℕ) : ℕ → ℕ → List ℕ → TakenBy → Option Augmented
  | 0, _, _, _ => none
  | fuel + 1, documentIndex, visited, takenBy =>
    -- a free doc request first
    match (neighbours documentIndex).find? fun docRequestIndex =>
      (takenBy.lookup docRequestIndex).isNone with
    | some free => some (true, visited, insert free documentIndex takenBy)
    | none => tryNeighbours (augment neighbours fuel) documentIndex
        (neighbours documentIndex) visited takenBy

/-- `new Map(Array.from(map, ([key, value]) => [value, key]))`. -/
def swapped (map : List (ℕ × ℕ)) : List (ℕ × ℕ) := map.foldl (fun acc m => insert m.2 m.1 acc) []

def maximumMatching (documents : List ℕ) (neighbours : ℕ → List ℕ) : Option (List (ℕ × ℕ)) := do
  let takenBy ← documents.foldlM (fun takenBy documentIndex => do
    let (_, _, takenBy) ← augment neighbours (takenBy.length + 1) documentIndex [] takenBy
    some takenBy) []
  some (swapped takenBy)

/-! ## Documents too many -/

/-- The documents too many, and the doc requests that may answer them. -/
structure Excess where
  documentIndexes : List ℕ
  docRequestIndexes : List ℕ

/-- `numbers.sort((a, b) => a - b)`. -/
def sortNumbers (numbers : List ℕ) : List ℕ := numbers.insertionSort (· ≤ ·)

/-- What is pushed for the candidates of a document: those that take one of them and are not
reached. -/
def newlyReached (takes : List (ℕ × ℕ)) (reached : List ℕ) (candidates : List ℕ) : List ℕ :=
  candidates.foldl (fun pushed docRequestIndex =>
    match takes.lookup docRequestIndex with
    | some next => if next ∈ reached ++ pushed then pushed else pushed ++ [next]
    | none => pushed) []

/-- The documents reached, once the queue is empty. -/
def reachFrom (takes : List (ℕ × ℕ)) (candidatesOf : ℕ → List ℕ) :
    ℕ → List ℕ → List ℕ → Option (List ℕ)
  | _, [], reached => some reached
  | 0, _ :: _, _ => none
  | fuel + 1, documentIndex :: queue, reached =>
    let pushed := newlyReached takes reached (candidatesOf documentIndex)
    reachFrom takes candidatesOf fuel (queue ++ pushed) (reached ++ pushed)

def findExcess (documents : List ℕ) (candidatesOf : ℕ → List ℕ) (matching : List (ℕ × ℕ)) :
    Option Excess := do
  let queue := documents.filter fun documentIndex => (matching.lookup documentIndex).isNone
  let reached ← reachFrom (swapped matching) candidatesOf documents.length queue queue
  let documentIndexes := sortNumbers reached
  some {
    documentIndexes
    docRequestIndexes := sortNumbers (documentIndexes.flatMap candidatesOf).dedup }

/-! ## One call -/

/-- The document that takes a doc request. -/
abbrev taker (takenBy : TakenBy) : ℕ → Option ℕ :=
  fun docRequestIndex => takenBy.lookup docRequestIndex

/-- The doc requests that are taken and not visited yet. -/
def unvisited (takenBy : TakenBy) (visited : List ℕ) : List ℕ := (keys takenBy).filter (· ∉ visited)

/-- What a call finds: an augmenting path, or that the doc requests it visits are closed. -/
structure AugmentSpec (neighbours : ℕ → List ℕ) (documentIndex : ℕ) (list visited : List ℕ)
    (takenBy : TakenBy) (found : Bool) (visited' : List ℕ) (takenBy' : TakenBy) : Prop where
  subset : visited ⊆ visited'
  taken : ∀ y ∈ visited', y ∈ keys takenBy
  path : found → (keys takenBy').Nodup ∧ ∃ path, (∀ y ∈ path, y ∉ visited) ∧
    Shift (fun x y => y ∈ neighbours x) (taker takenBy) documentIndex path (taker takenBy')
  unchanged : found = false → takenBy' = takenBy
  visits : found = false → list ⊆ visited'
  closed : found = false → ∀ y ∈ visited', y ∉ visited →
    ∃ x, takenBy.lookup y = some x ∧ neighbours x ⊆ visited'

theorem taker_insert (docRequestIndex documentIndex : ℕ) (takenBy : TakenBy) :
    taker (insert docRequestIndex documentIndex takenBy) =
      Function.update (taker takenBy) docRequestIndex (some documentIndex) := by
  funext y
  rw [taker, lookup_insert, Function.update_apply]

theorem length_unvisited_lt {takenBy : TakenBy} {visited : List ℕ} {y : ℕ} (hy : y ∈ keys takenBy)
    (hv : y ∉ visited) :
    (unvisited takenBy (visited ++ [y])).length < (unvisited takenBy visited).length := by
  have hsub : unvisited takenBy (visited ++ [y]) = (unvisited takenBy visited).filter (· ≠ y) := by
    rw [unvisited, unvisited, List.filter_filter]
    congr 1
    funext z
    simp [not_or, and_comm]
  rw [hsub]
  refine List.length_filter_lt_length_iff_exists.mpr ⟨y, ?_, by simp⟩
  rw [unvisited, List.mem_filter]
  exact ⟨hy, by simpa using hv⟩

theorem length_unvisited_le {takenBy : TakenBy} {visited visited' : List ℕ}
    (h : visited ⊆ visited') :
    (unvisited takenBy visited').length ≤ (unvisited takenBy visited).length := by
  refine (List.monotone_filter_right _ fun y hy => ?_).length_le
  simp only [decide_eq_true_eq] at hy ⊢
  exact fun hmem => hy (h hmem)

/-- What a call on a document finds in a state of the search. -/
def Calls (neighbours : ℕ → List ℕ) (takenBy : TakenBy) (fuel : ℕ)
    (call : ℕ → List ℕ → TakenBy → Option Augmented) : Prop :=
  ∀ documentIndex visited, (∀ y ∈ visited, y ∈ keys takenBy) →
  (unvisited takenBy visited).length < fuel →
    ∃ found visited' takenBy', call documentIndex visited takenBy =
      some (found, visited', takenBy') ∧
      AugmentSpec neighbours documentIndex
        (neighbours documentIndex) visited takenBy found visited' takenBy'

theorem tryNeighbours_spec {neighbours : ℕ → List ℕ}
    {call : ℕ → List ℕ → TakenBy → Option Augmented} {takenBy : TakenBy} {fuel : ℕ}
    (hcall : Calls neighbours takenBy fuel call) (documentIndex : ℕ) (list : List ℕ)
    (visited : List ℕ) (hlist : list ⊆ neighbours documentIndex)
    (htaken : ∀ y ∈ list, y ∈ keys takenBy) (hvisited : ∀ y ∈ visited, y ∈ keys takenBy)
    (hfuel : (unvisited takenBy visited).length < fuel + 1) :
    ∃ found visited' takenBy', tryNeighbours call documentIndex list visited takenBy =
      some (found, visited', takenBy') ∧
      AugmentSpec neighbours documentIndex list visited takenBy found visited' takenBy' := by
  induction list generalizing visited with
  | nil =>
    refine ⟨false, visited, takenBy, rfl, List.Subset.refl _, hvisited, nofun, fun _ => rfl,
      fun _ => List.nil_subset _, fun _ y hy hny => absurd hy hny⟩
  | cons y list ih =>
    have htail : list ⊆ neighbours documentIndex := fun z hz => hlist (List.mem_cons_of_mem _ hz)
    have htakenTail : ∀ z ∈ list, z ∈ keys takenBy :=
      fun z hz => htaken z (List.mem_cons_of_mem _ hz)
    unfold tryNeighbours
    by_cases hy : y ∈ visited
    · rw [if_pos hy]
      obtain ⟨found, visited', takenBy', heq, spec⟩ := ih visited htail htakenTail hvisited hfuel
      exact ⟨found, visited', takenBy', heq, { spec with
        visits := fun hf => List.cons_subset.mpr ⟨spec.subset hy, spec.visits hf⟩ }⟩
    · rw [if_neg hy]
      have hkey := htaken y List.mem_cons_self
      obtain ⟨current, hcurrent⟩ := Option.isSome_iff_exists.mp (lookup_isSome_iff.mpr hkey)
      rw [hcurrent]
      have hlt := length_unvisited_lt hkey hy
      have hvisited' : ∀ z ∈ visited ++ [y], z ∈ keys takenBy := fun z hz =>
        (List.mem_append.mp hz).elim (hvisited z) fun hz => List.mem_singleton.mp hz ▸ hkey
      obtain ⟨found, visited₁, takenBy₁, hcall₁, spec₁⟩ := hcall current _ hvisited' (by omega)
      dsimp only
      rw [hcall₁]
      cases found with
      | true =>
        obtain ⟨hnodup, path, hpath, hshift⟩ := spec₁.path rfl
        refine ⟨true, visited₁, insert y documentIndex takenBy₁, rfl, fun z hz => spec₁.subset
          (List.mem_append_left _ hz), spec₁.taken,
            fun _ => ⟨nodup_insert _ hnodup, y :: path, ?_, ?_⟩,
          nofun, nofun, nofun⟩
        · intro z hz
          obtain rfl | hz := List.mem_cons.mp hz
          · exact hy
          · exact fun hmem => hpath z hz (List.mem_append_left _ hmem)
        · rw [taker_insert]
          exact .move (hlist List.mem_cons_self) hcurrent
            (fun hmem => hpath y hmem (by simp)) hshift
      | false =>
        cases spec₁.unchanged rfl
        have hle : (unvisited takenBy visited₁).length ≤ _ := length_unvisited_le spec₁.subset
        obtain ⟨found, visited₂, takenBy₂, heq, spec₂⟩ :=
          ih visited₁ htail htakenTail spec₁.taken (by omega)
        have hsub : visited ⊆ visited₁ := fun z hz => spec₁.subset (List.mem_append_left _ hz)
        refine ⟨found, visited₂, takenBy₂, heq, List.Subset.trans hsub spec₂.subset,
          spec₂.taken, ?_, spec₂.unchanged, ?_, ?_⟩
        · intro hf
          obtain ⟨hnodup, path, hpath, hshift⟩ := spec₂.path hf
          exact ⟨hnodup, path, fun z hz hmem => hpath z hz (hsub hmem), hshift⟩
        · exact fun hf => List.cons_subset.mpr ⟨spec₂.subset (spec₁.subset (by simp)),
            spec₂.visits hf⟩
        · intro hf z hz hnz
          by_cases hz₁ : z ∈ visited₁
          · by_cases hzy : z = y
            · exact ⟨current, hzy ▸ hcurrent, List.Subset.trans (spec₁.visits rfl) spec₂.subset⟩
            · obtain ⟨x, hx, hsub'⟩ := spec₁.closed rfl z hz₁ (by simp [hnz, hzy])
              exact ⟨x, hx, List.Subset.trans hsub' spec₂.subset⟩
          · exact spec₂.closed hf z hz hz₁

/-- With fuel for every doc request that is taken and not visited, a call returns. -/
theorem augment_spec {neighbours : ℕ → List ℕ} {takenBy : TakenBy}
    (hn : (keys takenBy).Nodup) (fuel : ℕ) :
    Calls neighbours takenBy fuel (augment neighbours fuel) := by
  induction fuel with
  | zero => exact fun _ _ _ h => absurd h (Nat.not_lt_zero _)
  | succ fuel ih =>
    intro documentIndex visited hvisited hfuel
    unfold augment
    split
    case h_1 free hfind =>
      have hnone : takenBy.lookup free = none :=
        Option.isNone_iff_eq_none.mp (by simpa using List.find?_some hfind)
      refine ⟨true, visited, insert free documentIndex takenBy, rfl, List.Subset.refl _, hvisited,
        fun _ => ⟨nodup_insert _ hn, [free], ?_, ?_⟩, nofun, nofun, nofun⟩
      · intro y hy hmem
        rw [List.mem_singleton.mp hy] at hmem
        exact lookup_eq_none_iff.mp hnone (hvisited free hmem)
      · rw [taker_insert]
        exact .free (List.mem_of_find?_eq_some hfind) hnone
    case h_2 hfind =>
      have htaken : ∀ y ∈ neighbours documentIndex, y ∈ keys takenBy := by
        intro y hy
        by_contra hno
        exact List.find?_eq_none.mp hfind y hy (by rw [lookup_eq_none_iff.mpr hno]; rfl)
      exact tryNeighbours_spec ih documentIndex _ visited (List.Subset.refl _) htaken hvisited hfuel

/-! ## The run -/

/-- The doc requests taken match some of the documents processed, as many as can be: those left out
have all their neighbours in a closed set. -/
structure Matched (neighbours : ℕ → List ℕ) (processed : List ℕ) (takenBy : TakenBy) : Prop where
  nodup : (keys takenBy).Nodup
  mem : ∀ y x, takenBy.lookup y = some x → x ∈ processed ∧ y ∈ neighbours x
  injective : ∀ y y' x, takenBy.lookup y = some x → takenBy.lookup y' = some x → y = y'
  closed : ∃ n : List ℕ, Closed (fun x y => y ∈ neighbours x) (taker takenBy) {y | y ∈ n} ∧
    ∀ x ∈ processed, (∀ y, takenBy.lookup y ≠ some x) → neighbours x ⊆ n

theorem Matched.augment {neighbours : ℕ → List ℕ} {processed : List ℕ} {takenBy : TakenBy}
    (h : Matched neighbours processed takenBy) {documentIndex : ℕ}
    (hd : documentIndex ∉ processed) :
    ∃ found visited takenBy', augment neighbours (takenBy.length + 1) documentIndex [] takenBy =
        some (found, visited, takenBy') ∧
        Matched neighbours (processed ++ [documentIndex]) takenBy' := by
  have hfuel : (unvisited takenBy []).length < takenBy.length + 1 := by
    have hle := List.length_filter_le (· ∉ ([] : List ℕ)) (keys takenBy)
    rw [keys, List.length_map] at hle
    exact Nat.lt_succ_of_le hle
  obtain ⟨found, visited, takenBy', heq, spec⟩ :=
    augment_spec h.nodup _ documentIndex [] (by simp) hfuel
  refine ⟨found, visited, takenBy', heq, ?_⟩
  obtain ⟨n, hn, hout⟩ := h.closed
  have hnot : ∀ y, takenBy.lookup y ≠ some documentIndex := fun y hy => hd (h.mem y _ hy).1
  cases found with
  | true =>
    obtain ⟨hnodup, path, -, hshift⟩ := spec.path rfl
    obtain ⟨hinj, hvalues⟩ := hshift.injectiveOff (e := ∅) (fun _ _ => id)
      (fun y y' x _ _ => h.injective y y' x) (fun y _ => hnot y)
    have hvalue : ∀ x, (∃ y, takenBy'.lookup y = some x) ↔ x = documentIndex ∨
        ∃ y, takenBy.lookup y = some x := by
      intro x
      simpa using hvalues x
    refine ⟨hnodup, fun y x hy => ⟨?_, ?_⟩, fun y y' x => hinj y y' x id id, n, ?_, ?_⟩
    · obtain rfl | ⟨y', hy'⟩ := (hvalue x).mp ⟨y, hy⟩
      · exact List.mem_append_right _ (List.mem_singleton_self _)
      · exact List.mem_append_left _ (h.mem y' x hy').1
    · exact hshift.adj_of_eq_some (fun y x hx => (h.mem y x hx).2) y x hy
    · intro y hy
      have hsame : taker takenBy' y = taker takenBy y :=
        hshift.eq_of_not_mem fun hmem => hshift.not_mem_closed hn y hmem hy
      rw [hsame]
      exact hn y hy
    · intro x hx huntaken
      have hne : ¬(x = documentIndex ∨ ∃ y, takenBy.lookup y = some x) := fun hor =>
        ((hvalue x).mpr hor).elim huntaken
      rw [not_or, not_exists] at hne
      refine hout x ((List.mem_append.mp hx).resolve_right fun hmem => hne.1
        (List.mem_singleton.mp hmem)) hne.2
  | false =>
    cases spec.unchanged rfl
    refine ⟨h.nodup, fun y x hy => ⟨List.mem_append_left _ (h.mem y x hy).1, (h.mem y x hy).2⟩,
      h.injective, n ++ visited, ?_, ?_⟩
    · intro y hy
      obtain hy | hy := List.mem_append.mp hy
      · obtain ⟨x, hx, hsub⟩ := hn y hy
        exact ⟨x, hx, fun y' hy' => List.mem_append_left _ (hsub y' hy')⟩
      · obtain ⟨x, hx, hsub⟩ := spec.closed rfl y hy (List.not_mem_nil)
        exact ⟨x, hx, fun y' hy' => List.mem_append_right _ (hsub hy')⟩
    · intro x hx huntaken
      obtain hx | hx := List.mem_append.mp hx
      · exact fun y hy => List.mem_append_left _ (hout x hx huntaken hy)
      · rw [List.mem_singleton.mp hx]
        exact fun y hy => List.mem_append_right _ (spec.visits rfl hy)

theorem exists_matched {neighbours : ℕ → List ℕ} {documents : List ℕ} :
    ∀ {processed : List ℕ} {takenBy : TakenBy}, (processed ++ documents).Nodup →
      Matched neighbours processed takenBy →
      ∃ takenBy', documents.foldlM (fun takenBy documentIndex => do
        let (_, _, takenBy) ← Mdoc.augment neighbours (takenBy.length + 1) documentIndex [] takenBy
        some takenBy) takenBy = some takenBy' ∧
        Matched neighbours (processed ++ documents) takenBy' := by
  induction documents with
  | nil => exact fun _ h => ⟨_, rfl, by rwa [List.append_nil]⟩
  | cons documentIndex documents ih =>
    intro processed takenBy hn h
    have hd : documentIndex ∉ processed := fun hmem =>
      (List.nodup_append.mp hn).2.2 documentIndex hmem documentIndex List.mem_cons_self rfl
    obtain ⟨found, visited, takenBy', heq, h'⟩ := h.augment hd
    have happend : processed ++ documentIndex :: documents = (processed ++ [documentIndex]) ++
        documents := by simp
    rw [happend] at hn ⊢
    obtain ⟨takenBy'', hrun, h''⟩ := ih hn h'
    refine ⟨takenBy'', ?_, h''⟩
    rw [List.foldlM_cons, heq]
    exact hrun

theorem nodup_values {map : List (ℕ × ℕ)} (hn : (keys map).Nodup)
    (hinj : ∀ y y' x, map.lookup y = some x → map.lookup y' = some x → y = y') :
    (map.map Prod.snd).Nodup := by
  refine List.Nodup.map_on (fun m hm m' hm' heq => Prod.ext ?_ heq) (List.Nodup.of_map _ hn)
  exact hinj m.1 m'.1 m.2 (lookup_of_mem hn hm) (heq ▸ lookup_of_mem hn hm')

theorem keys_map_swap (map : List (ℕ × ℕ)) : keys (map.map Prod.swap) = map.map Prod.snd := by
  rw [keys, List.map_map]
  rfl

/-- A map with distinct values is swapped pair by pair. -/
theorem swapped_eq {map : List (ℕ × ℕ)} (h : (map.map Prod.snd).Nodup) :
    swapped map = map.map Prod.swap := by
  have hfold : swapped map = (map.map Prod.swap).foldl (fun acc m => insert m.1 m.2 acc) [] := by
    rw [List.foldl_map]
    rfl
  rw [hfold, foldl_insert (by rwa [List.nil_append, keys_map_swap]), List.nil_append]

theorem lookup_swapped {map : List (ℕ × ℕ)} (hn : (keys map).Nodup)
    (h : (map.map Prod.snd).Nodup) (x y : ℕ) :
    (swapped map).lookup x = some y ↔ map.lookup y = some x := by
  rw [swapped_eq h, ← mem_iff_lookup (by rwa [keys_map_swap]), ← mem_iff_lookup hn]
  exact List.mem_map_of_injective Prod.swap_injective (a := (y, x))

/-! ## The matching -/

/-- The matching that a map of documents to doc requests stands for. -/
structure IsMatching (adj : ℕ → ℕ → Prop) (documents : List ℕ) (matching : List (ℕ × ℕ))
    (m : Matching adj documents.toFinset) : Prop where
  nodup : (keys matching).Nodup
  assign : ∀ x, m.assign x = matching.lookup x

theorem IsMatching.length_eq {adj : ℕ → ℕ → Prop} {documents : List ℕ} {matching : List (ℕ × ℕ)}
    {m : Matching adj documents.toFinset} (h : IsMatching adj documents matching m) :
    matching.length = m.covered.card := by
  have hcovered : m.covered = (keys matching).toFinset := by
    ext x
    rw [Matching.mem_covered, List.mem_toFinset, ← lookup_isSome_iff,
      Option.isSome_iff_exists, h.assign]
  rw [hcovered, List.toFinset_card_of_nodup h.nodup, keys, List.length_map]

/-- The matching is found, and it is maximum. -/
theorem exists_maximumMatching (neighbours : ℕ → List ℕ) {documents : List ℕ}
    (hn : documents.Nodup) :
    ∃ matching, maximumMatching documents neighbours = some matching ∧
      ∃ m, IsMatching (fun x y => y ∈ neighbours x) documents matching m ∧ m.IsMaximum := by
  have hstart : Matched neighbours [] [] :=
    ⟨List.nodup_nil, nofun, nofun, [], nofun, nofun⟩
  obtain ⟨takenBy, hrun, h⟩ := exists_matched (by simpa using hn) hstart
  rw [List.nil_append] at h
  have hvalues := nodup_values h.nodup h.injective
  have hlookup := lookup_swapped h.nodup hvalues
  have hkeys : (keys (swapped takenBy)).Nodup := by rwa [swapped_eq hvalues, keys_map_swap]
  let m : Matching (fun x y => y ∈ neighbours x) documents.toFinset :=
    { assign := fun x => (swapped takenBy).lookup x
      mem := fun {x y} hx => by
        obtain ⟨hmem, hadj⟩ := h.mem y x ((hlookup x y).mp hx)
        exact ⟨List.mem_toFinset.mpr hmem, hadj⟩
      injective := fun {x x' y} hx hx' => by
        rw [hlookup] at hx hx'
        exact Option.some.inj (hx.symm.trans hx') }
  refine ⟨swapped takenBy, ?_, m, ⟨hkeys, fun _ => rfl⟩, ?_⟩
  · rw [maximumMatching, hrun]
    rfl
  · obtain ⟨n, hclosed, hout⟩ := h.closed
    have huntaken : ∀ x, m.assign x = none → ∀ y, takenBy.lookup y ≠ some x := by
      intro x hx y hy
      rw [← hlookup] at hy
      cases hx.symm.trans hy
    let t := documents.toFinset.filter fun x =>
      m.assign x = none ∨ ∃ y ∈ n, takenBy.lookup y = some x
    refine m.isMaximum_of_closed (t := t) (n := n.toFinset) ?_ ?_ ?_
    · exact fun x hx hnone => Finset.mem_filter.mpr ⟨hx, Or.inl hnone⟩
    · intro x hx y hy
      rw [List.mem_toFinset]
      obtain ⟨hx, hnone | ⟨y', hy', htaken⟩⟩ := Finset.mem_filter.mp hx
      · exact hout x (List.mem_toFinset.mp hx) (huntaken x hnone) hy
      · obtain ⟨x', hx', hsub⟩ := hclosed y' hy'
        cases htaken.symm.trans hx'
        exact hsub y hy
    · intro y hy
      obtain ⟨x, hx, -⟩ := hclosed y (List.mem_toFinset.mp hy)
      refine ⟨x, Finset.mem_filter.mpr ⟨List.mem_toFinset.mpr (h.mem y x hx).1, Or.inr ?_⟩,
        (hlookup x y).mpr hx⟩
      exact ⟨y, List.mem_toFinset.mp hy, hx⟩

/-! ## The search for documents too many -/

theorem newlyReached_append (takes : List (ℕ × ℕ)) (reached candidates : List ℕ) (y : ℕ) :
    newlyReached takes reached (candidates ++ [y]) =
      match takes.lookup y with
      | some next => if next ∈ reached ++ newlyReached takes reached candidates
        then newlyReached takes reached candidates
          else newlyReached takes reached candidates ++ [next]
      | none => newlyReached takes reached candidates := by
  rw [newlyReached, List.foldl_append]
  rfl

theorem nodup_newlyReached {takes : List (ℕ × ℕ)} {reached : List ℕ} (hn : reached.Nodup)
    (candidates : List ℕ) :
    (reached ++ newlyReached takes reached candidates).Nodup := by
  induction candidates using List.reverseRecOn with
  | nil => rwa [newlyReached, List.foldl_nil, List.append_nil]
  | append_singleton candidates y ih =>
    rw [newlyReached_append]
    split
    case h_1 next _ =>
      split
      case isTrue => exact ih
      case isFalse hnext =>
        rw [← List.append_assoc]
        exact ih.append (List.nodup_singleton next) (List.disjoint_singleton.mpr hnext)
    case h_2 => exact ih

theorem mem_newlyReached {takes : List (ℕ × ℕ)} {reached candidates : List ℕ} {x : ℕ} :
    x ∈ reached ++ newlyReached takes reached candidates ↔
      x ∈ reached ∨ ∃ y ∈ candidates, takes.lookup y = some x := by
  induction candidates using List.reverseRecOn with
  | nil => simp [newlyReached]
  | append_singleton candidates y ih =>
    have hexists : (∃ y' ∈ candidates ++ [y], takes.lookup y' = some x) ↔
        (∃ y' ∈ candidates, takes.lookup y' = some x) ∨ takes.lookup y = some x := by
      simp only [List.mem_append, List.mem_singleton, or_and_right, exists_or, exists_eq_left]
    rw [newlyReached_append, hexists, ← or_assoc, ← ih]
    split
    case h_1 next hnext =>
      rw [hnext, Option.some.injEq]
      split
      case isTrue hmem => exact ⟨Or.inl, fun h => h.elim id fun heq => heq ▸ hmem⟩
      case isFalse => rw [← List.append_assoc, List.mem_append, List.mem_singleton,
        eq_comm (a := x)]
    case h_2 hnone =>
      rw [hnone]
      exact ⟨Or.inl, fun h => h.resolve_right nofun⟩

theorem mem_sortNumbers {numbers : List ℕ} {n : ℕ} : n ∈ sortNumbers numbers ↔ n ∈ numbers :=
  List.mem_insertionSort _

theorem pairwise_sortNumbers {numbers : List ℕ} (h : numbers.Nodup) :
    (sortNumbers numbers).Pairwise (· < ·) := by
  have hnodup : (sortNumbers numbers).Nodup :=
    (List.perm_insertionSort (· ≤ ·) numbers).nodup_iff.mpr h
  have hsorted := List.pairwise_insertionSort (· ≤ ·) numbers
  exact (hsorted.and hnodup).imp fun h => lt_of_le_of_ne h.1 h.2

section Search

variable {documents : List ℕ} {candidatesOf : ℕ → List ℕ} {matching : List (ℕ × ℕ)}
  {m : Matching (fun x y => y ∈ candidatesOf x) documents.toFinset}

/-- The documents reached so far: all of them are on alternating paths, and so are reached their
successors unless they are in the queue. -/
structure Reaching (m : Matching (fun x y => y ∈ candidatesOf x) documents.toFinset)
    (queue reached : List ℕ) : Prop where
  nodup : reached.Nodup
  subset : reached ⊆ documents
  alternates : ∀ x ∈ reached, m.Alternates x
  missed : ∀ x ∈ documents, m.assign x = none → x ∈ reached
  queued : queue ⊆ reached
  successors : ∀ x ∈ reached, x ∉ queue →
    ∀ y ∈ candidatesOf x, ∀ x', m.assign x' = some y → x' ∈ reached

theorem Reaching.step {takes : List (ℕ × ℕ)}
    (htakes : ∀ x y, takes.lookup y = some x ↔ m.assign x = some y) {documentIndex : ℕ}
    {queue reached : List ℕ} (h : Reaching m (documentIndex :: queue) reached) :
    Reaching m (queue ++ newlyReached takes reached (candidatesOf documentIndex))
      (reached ++ newlyReached takes reached (candidatesOf documentIndex)) := by
  have hd : documentIndex ∈ reached := h.queued List.mem_cons_self
  have halternates : ∀ x ∈ reached ++ newlyReached takes reached (candidatesOf documentIndex),
      m.Alternates x := by
    intro x hx
    obtain hx | ⟨y, hy, htaken⟩ := mem_newlyReached.mp hx
    · exact h.alternates x hx
    · obtain ⟨n, hn⟩ := h.alternates documentIndex hd
      exact ⟨n + 1, hn.step hy ((htakes x y).mp htaken)⟩
  refine ⟨nodup_newlyReached h.nodup _, fun x hx => List.mem_toFinset.mp (halternates x hx).mem,
    halternates, fun x hx hnone => List.mem_append_left _ (h.missed x hx hnone), ?_, ?_⟩
  · exact List.append_subset.mpr
      ⟨fun x hx => List.mem_append_left _ (h.queued (List.mem_cons_of_mem _ hx)),
      List.subset_append_right _ _⟩
  · intro x hx hnot y hy x' hx'
    have hold : x ∈ reached :=
      (List.mem_append.mp hx).resolve_right fun hmem => hnot (List.mem_append_right _ hmem)
    by_cases heq : x = documentIndex
    · exact mem_newlyReached.mpr (Or.inr ⟨y, heq ▸ hy, (htakes x' y).mpr hx'⟩)
    · refine List.mem_append_left _ (h.successors x hold (fun hmem => ?_) y hy x' hx')
      obtain hmem | hmem := List.mem_cons.mp hmem
      · exact heq hmem
      · exact hnot (List.mem_append_left _ hmem)

/-- The queue gets empty, as no document is put into it twice. -/
theorem Reaching.run {takes : List (ℕ × ℕ)}
    (htakes : ∀ x y, takes.lookup y = some x ↔ m.assign x = some y) (fuel : ℕ)
    {queue reached : List ℕ} (h : Reaching m queue reached)
    (hfuel : queue.length + documents.length ≤ fuel + reached.length) :
    ∃ reached', reachFrom takes candidatesOf fuel queue reached = some reached' ∧
    Reaching m [] reached' := by
  induction fuel generalizing queue reached with
  | zero =>
    have hle := (h.nodup.subperm h.subset).length_le
    obtain rfl : queue = [] := List.length_eq_zero_iff.mp (by omega)
    exact ⟨reached, rfl, h⟩
  | succ fuel ih =>
    cases queue with
    | nil => exact ⟨reached, rfl, h⟩
    | cons documentIndex queue =>
      refine ih (h.step htakes) ?_
      rw [List.length_cons] at hfuel
      rw [List.length_append, List.length_append]
      omega

theorem Reaching.mem_iff {reached : List ℕ} (h : Reaching m [] reached) {x : ℕ} :
    x ∈ reached ↔ m.Alternates x := by
  constructor
  · exact h.alternates x
  · rintro ⟨n, hn⟩
    induction hn with
    | missed hx hnone => exact h.missed _ (List.mem_toFinset.mp hx) hnone
    | step _ hadj hsome ih => exact h.successors _ ih List.not_mem_nil _ hadj _ hsome

/-- The documents found are those that some maximum matching leaves out. -/
theorem findExcess_spec (hd : documents.Nodup)
    (h : IsMatching (fun x y => y ∈ candidatesOf x) documents matching m) (hm : m.IsMaximum) :
    ∃ excess, findExcess documents candidatesOf matching = some excess ∧
      excess.documentIndexes.Pairwise (· < ·) ∧ excess.docRequestIndexes.Pairwise (· < ·) ∧
      (∀ x, x ∈ excess.documentIndexes ↔
        Matching.LeftOut (fun x y => y ∈ candidatesOf x) documents.toFinset x) ∧
      ∀ y, y ∈ excess.docRequestIndexes ↔ ∃ x ∈ excess.documentIndexes, y ∈ candidatesOf x := by
  have hinj : ∀ x x' y, matching.lookup x = some y → matching.lookup x' = some y → x = x' := by
    intro x x' y hx hx'
    rw [← h.assign] at hx hx'
    exact m.injective hx hx'
  have htakes : ∀ x y, (swapped matching).lookup y = some x ↔ m.assign x = some y := by
    intro x y
    rw [lookup_swapped h.nodup (nodup_values h.nodup hinj), h.assign]
  let queue := documents.filter fun documentIndex => (matching.lookup documentIndex).isNone
  have hqueue : ∀ {x}, x ∈ queue ↔ x ∈ documents ∧ m.assign x = none := by
    intro x
    rw [List.mem_filter, Option.isNone_iff_eq_none, h.assign]
  have hstart : Reaching m queue queue :=
    ⟨hd.filter _, List.filter_subset_self _,
      fun x hx => ⟨0, .missed (List.mem_toFinset.mpr (hqueue.mp hx).1)
      (hqueue.mp hx).2⟩, fun x hx hnone => hqueue.mpr ⟨hx, hnone⟩, List.Subset.refl _,
      fun x hx hnot => absurd hx hnot⟩
  obtain ⟨reached, hreach, hreached⟩ :=
    hstart.run htakes documents.length (le_of_eq (Nat.add_comm ..))
  refine ⟨⟨sortNumbers reached, sortNumbers ((sortNumbers reached).flatMap candidatesOf).dedup⟩, ?_,
    pairwise_sortNumbers hreached.nodup, pairwise_sortNumbers (List.nodup_dedup _), ?_, ?_⟩
  · simp only [findExcess, Option.bind_eq_bind]
    rw [hreach]
    rfl
  · intro x
    rw [Matching.leftOut_iff hm, ← hreached.mem_iff, mem_sortNumbers]
  · intro y
    rw [mem_sortNumbers, List.mem_dedup, List.mem_flatMap]

end Search

end IdentityCommon.Mdoc
