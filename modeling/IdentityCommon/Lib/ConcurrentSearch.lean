import IdentityCommon.Lib.AssocList
import Mathlib.Algebra.BigOperators.Group.List.Basic
import Mathlib.Data.List.Perm.Basic
import Mathlib.Algebra.Order.Ring.Nat

/-!
# Concurrent search with budgets

A recursive search for paths in which the branches run concurrently. What an id leads to is
requested once and shared by the branches, and the number of requests and of visits is bounded.
Branches that fail are reported, and the others go on.

## Main definitions

- `Problem` — what is searched
- `explore` — the search without concurrency and without budgets
- `Task`, `Shared`, `Step` — the search as tasks that take steps in any order

## Main results

- `Reaches.sublist`, `Reaches.exact` — what is found in any order, and that the order does not
  matter within the budgets
- `Reaches.budget` — no run requests or visits more than the budgets
- `Reaches.length_le`, `Reaches.progress` — every run ends, with a result
-/

namespace IdentityCommon.ConcurrentSearch

open AssocList

universe u

variable {ι α ε : Type u}

/-- What is searched for: what an id leads to, which paths are results, and which ids continue a
path. -/
structure Problem (ι α ε : Type u) where
  look : ι → Except ε α
  /-- Whether a request is made for the id; if not, it leads to what it does at once. -/
  requestable : ι → Bool
  goal : List α → Bool
  next : List α → List ι
  maxDepth : ℕ
  next_nil : ∀ path, maxDepth < path.length → next path = []
  budget : ℕ
  requestsError : ε
  visitsError : ε

/-- A branch that failed: the path that it continued, its id and why. -/
structure Failure (ι α ε : Type u) where
  path : List α
  id : ι
  error : ε

/-- The paths that a branch has found, or why it failed. -/
abbrev Result (α ε : Type u) := Except ε (List (List α))

def fulfilled : Result α ε → List (List α)
  | .ok paths => paths
  | .error _ => []

def rejected (path : List α) (id : ι) : Result α ε → List (Failure ι α ε)
  | .ok _ => []
  | .error error => [{ path, id, error }]

/-! ## The search without concurrency -/

structure Outcome (ι α ε : Type u) where
  result : Result α ε
  failures : List (Failure ι α ε)
  visits : ℕ

variable (P : Problem ι α ε)

/-- The path itself, if it is a result. -/
def here (path : List α) : List (List α) := if P.goal path then [path] else []

/-- What the branches of a path make together. -/
def branch (path : List α) (outs : List (ι × Outcome ι α ε)) : Outcome ι α ε where
  result := .ok (here P path ++ outs.flatMap fun o => fulfilled o.2.result)
  failures := outs.flatMap (·.2.failures) ++ outs.flatMap fun o => rejected path o.1 o.2.result
  visits := 1 + (outs.map (·.2.visits)).sum

def exploreN : ℕ → ι → List α → Outcome ι α ε
  | 0, id, path => match P.look id with
    | .error error => ⟨.error error, [], 1⟩
    | .ok a => branch P (path ++ [a]) []
  | n + 1, id, path => match P.look id with
    | .error error => ⟨.error error, [], 1⟩
    | .ok a => branch P (path ++ [a])
        ((P.next (path ++ [a])).map fun id' => (id', exploreN n id' (path ++ [a])))

/-- The search from an id that continues a path. -/
def explore (id : ι) (path : List α) : Outcome ι α ε :=
  exploreN P (P.maxDepth - path.length) id path

variable {P}

theorem explore_of_error {id : ι} {error : ε} (h : P.look id = .error error) (path : List α) :
    explore P id path = ⟨.error error, [], 1⟩ := by
  rw [explore]
  cases P.maxDepth - path.length <;> rw [exploreN, h]

theorem explore_of_ok {id : ι} {a : α} (h : P.look id = .ok a) (path : List α) :
    explore P id path =
      branch P (path ++ [a])
        ((P.next (path ++ [a])).map fun id' => (id', explore P id' (path ++ [a]))) := by
  have hlength : (path ++ [a]).length = path.length + 1 := by simp
  rw [explore]
  by_cases hlt : path.length < P.maxDepth
  · obtain ⟨n, hn⟩ : ∃ n, P.maxDepth - path.length = n + 1 :=
      ⟨P.maxDepth - path.length - 1, by omega⟩
    have hfuel : P.maxDepth - (path ++ [a]).length = n := by omega
    rw [hn, exploreN, h]
    simp only [explore, hfuel]
  · -- the path is as long as it may get
    have hzero : P.maxDepth - path.length = 0 := by omega
    rw [hzero, exploreN, h, P.next_nil _ (by omega)]
    rfl

theorem one_le_visits (id : ι) (path : List α) : 1 ≤ (explore P id path).visits := by
  cases h : P.look id with
  | error error => exact Nat.le_of_eq (congrArg Outcome.visits (explore_of_error h path)).symm
  | ok a =>
    rw [explore_of_ok h]
    exact Nat.le_add_right 1 _

/-- Induction along the search. -/
theorem explore_induction {motive : ι → List α → Prop}
    (error : ∀ id path error, P.look id = .error error → motive id path)
    (ok : ∀ id path a, P.look id = .ok a →
      (∀ id' ∈ P.next (path ++ [a]), motive id' (path ++ [a])) → motive id path)
    (id : ι) (path : List α) : motive id path := by
  obtain ⟨n, hn⟩ : ∃ n, n = P.maxDepth - path.length := ⟨_, rfl⟩
  induction n generalizing id path with
  | zero =>
    cases h : P.look id with
    | error e => exact error id path e h
    | ok a =>
      refine ok id path a h fun id' hid' => ?_
      rw [P.next_nil _ (by rw [List.length_append, List.length_singleton]; omega)] at hid'
      cases hid'
  | succ n ih =>
    cases h : P.look id with
    | error e => exact error id path e h
    | ok a =>
      refine ok id path a h fun id' _ => ih id' (path ++ [a]) ?_
      rw [List.length_append, List.length_singleton]
      omega

variable (P) in
/-- A path that the search comes to from an id that continues a path. -/
inductive Leads : ι → List α → List α → Prop
  | stop {id : ι} {path : List α} {a : α} : P.look id = .ok a → Leads id path (path ++ [a])
  | go {id id' : ι} {path p : List α} {a : α} : P.look id = .ok a → id' ∈ P.next (path ++ [a]) →
      Leads id' (path ++ [a]) p → Leads id path p

/-- The search finds the results among the paths that it comes to. -/
theorem mem_explore {id : ι} {path p : List α} :
    p ∈ fulfilled (explore P id path).result ↔ Leads P id path p ∧ P.goal p := by
  induction id, path using explore_induction (P := P) with
  | error id path error h =>
    rw [explore_of_error h]
    refine ⟨fun hmem => absurd hmem List.not_mem_nil, fun hp => ?_⟩
    cases hp.1 with
    | stop h' => cases h.symm.trans h'
    | go h' => cases h.symm.trans h'
  | ok id path a h ih =>
    rw [explore_of_ok h]
    simp only [branch, fulfilled, List.flatMap_map, List.mem_append, List.mem_flatMap]
    constructor
    · rintro (hmem | ⟨id', hid', hmem⟩)
      · rw [here] at hmem
        split at hmem
        case isTrue hgoal =>
          obtain rfl := List.mem_singleton.mp hmem
          exact ⟨.stop h, hgoal⟩
        case isFalse => cases hmem
      · obtain ⟨hleads, hgoal⟩ := (ih id' hid').mp hmem
        exact ⟨.go h hid' hleads, hgoal⟩
    · rintro ⟨hleads, hgoal⟩
      cases hleads with
      | stop h' =>
        cases h.symm.trans h'
        left
        rw [here, if_pos hgoal]
        exact List.mem_singleton_self _
      | go h' hid' hleads =>
        cases h.symm.trans h'
        exact .inr ⟨_, hid', (ih _ hid').mpr ⟨hleads, hgoal⟩⟩

theorem Leads.starts {id : ι} {path p : List α} (h : Leads P id path p) :
    ∃ a rest, P.look id = .ok a ∧ p = path ++ a :: rest := by
  induction h with
  | stop h => exact ⟨_, [], h, rfl⟩
  | go h _ _ ih =>
    obtain ⟨b, rest, -, hp⟩ := ih
    exact ⟨_, b :: rest, h, by rw [hp, List.append_assoc]; rfl⟩

/-- No path is longer than the depth allows. -/
theorem Leads.length_le {id : ι} {path p : List α} (h : Leads P id path p)
    (hlen : path.length ≤ P.maxDepth) :
    p.length ≤ P.maxDepth + 1 := by
  induction h with
  | stop => simpa using hlen
  | @go id id' path p a _ hnext _ ih =>
    by_cases hlt : (path ++ [a]).length ≤ P.maxDepth
    · exact ih hlt
    · rw [P.next_nil _ (by omega)] at hnext
      cases hnext

/-! ## Tasks -/

/-- A branch: it waits for what its id leads to, or for its own branches, or has ended. -/
inductive Task (ι α ε : Type u)
  | waiting (id : ι) (path : List α)
  | joined (path : List α) (children : List (ι × Task ι α ε))
  | done (result : Result α ε)

/-- What the branches share: how many visits and requests there were, what the ids lead to as far as
it is known, the failures, and which ids were requested and visited. -/
structure Shared (ι α ε : Type u) where
  visits : ℕ := 0
  requests : ℕ := 0
  cache : List (ι × Option (Except ε α)) := []
  failures : List (Failure ι α ε) := []
  requested : List ι := []
  visited : List ι := []

namespace Task

@[induction_eliminator, elab_as_elim]
theorem induction {motive : Task ι α ε → Prop} (waiting : ∀ id path, motive (waiting id path))
    (joined : ∀ path children, (∀ c ∈ children, motive c.2) → motive (joined path children))
    (done : ∀ result, motive (done result)) : ∀ t, motive t :=
  Task.rec (motive_1 := motive) (motive_2 := fun children => ∀ c ∈ children, motive c.2)
    (motive_3 := fun c => motive c.2)
    waiting joined done (by simp) (fun _ _ h hs => List.forall_mem_cons.mpr ⟨h, hs⟩)
      (fun _ _ h => h)

/-- What a task has found so far. -/
def found : Task ι α ε → Result α ε
  | done result => result
  | _ => .ok []

def isDone : Task ι α ε → Bool
  | done _ => true
  | _ => false

end Task

variable (P) [DecidableEq ι]

/-- A request, unless there was one for the id. -/
def request (id : ι) (s : Shared ι α ε) : Shared ι α ε :=
  match s.cache.lookup id with
  | some _ => s
  | none =>
    if P.requestable id then
      if P.budget < s.requests + 1 then
        { s with
          requests := s.requests + 1
          cache := insert id (some (.error P.requestsError)) s.cache }
      else
        { s with
          requests := s.requests + 1
          cache := insert id none s.cache
          requested := s.requested ++ [id] }
    else { s with cache := insert id (some (P.look id)) s.cache }

/-- The start of a branch. -/
def start (id : ι) (path : List α) (s : Shared ι α ε) : Task ι α ε × Shared ι α ε :=
  if P.budget < s.visits + 1 then (.done (.error P.visitsError), { s with visits := s.visits + 1 })
  else (.waiting id path,
    request P id { s with visits := s.visits + 1, visited := s.visited ++ [id] })

/-- The start of branches, one after the other. -/
def startAll (path : List α) : List ι → Shared ι α ε → List (ι × Task ι α ε) × Shared ι α ε
  | [], s => ([], s)
  | id :: ids, s =>
    let (t, s) := start P id path s
    let (children, s) := startAll path ids s
    ((id, t) :: children, s)

/-- A step of a task. -/
inductive Step : Task ι α ε → Shared ι α ε → Task ι α ε → Shared ι α ε → Prop
  /-- What an id leads to becomes known. -/
  | settle {t : Task ι α ε} {s : Shared ι α ε} {id : ι} : s.cache.lookup id = some none →
      Step t s t { s with cache := insert id (some (P.look id)) s.cache }
  | resumeError {id : ι} {path : List α} {s : Shared ι α ε} {error : ε} :
      s.cache.lookup id = some (some (.error error)) →
      Step (.waiting id path) s (.done (.error error)) s
  | resume {id : ι} {path : List α} {s : Shared ι α ε} {a : α} :
      s.cache.lookup id = some (some (.ok a)) →
      Step (.waiting id path) s
        (.joined (path ++ [a]) (startAll P (path ++ [a]) (P.next (path ++ [a])) s).1)
        (startAll P (path ++ [a]) (P.next (path ++ [a])) s).2
  | join {path : List α} {children : List (ι × Task ι α ε)} {s : Shared ι α ε} :
      (∀ c ∈ children, c.2.isDone) →
      Step (.joined path children) s
        (.done (.ok (here P path ++ children.flatMap fun c => fulfilled c.2.found)))
        { s with failures := s.failures ++ children.flatMap fun c => rejected path c.1 c.2.found }
  | child {path : List α} {before after : List (ι × Task ι α ε)} {id : ι} {t t' : Task ι α ε}
      {s s' : Shared ι α ε} :
      Step t s t' s' → Step (.joined path (before ++ (id, t) :: after)) s
        (.joined path (before ++ (id, t') :: after)) s'

/-- A run of a number of steps from the start of a search. -/
inductive Reaches (id : ι) : ℕ → Task ι α ε → Shared ι α ε → Prop
  | start : Reaches id 0 (start P id [] {}).1 (start P id [] {}).2
  | step {n : ℕ} {t t' : Task ι α ε} {s s' : Shared ι α ε} : Reaches id n t s → Step P t s t' s' →
      Reaches id (n + 1) t' s'

/-! ## What a task has to do with the search -/

variable (E : Prop)

mutual

/-- The task is the branch from an id that continues a path. What it has found is some of what the
search finds, and all of it, with the same failures, if the run is exact. -/
def Follows : Task ι α ε → ι → List α → Prop
  | .waiting id' path', id, path => id' = id ∧ path' = path
  | .joined path' children, id, path =>
    ∃ a, P.look id = .ok a ∧ path' = path ++ [a] ∧ children.map Prod.fst = P.next path' ∧
    FollowAll children path'
  | .done result, id, path =>
    (fulfilled result).Sublist (fulfilled (explore P id path).result) ∧
    (E → result = (explore P id path).result)

def FollowAll : List (ι × Task ι α ε) → List α → Prop
  | [], _ => True
  | (id, t) :: children, path => Follows t id path ∧ FollowAll children path

end

mutual

/-- How many visits the search still has to make from the task. -/
def remaining : Task ι α ε → ℕ
  | .waiting id path => (explore P id path).visits - 1
  | .joined _ children => remainingAll children
  | .done _ => 0

def remainingAll : List (ι × Task ι α ε) → ℕ
  | [] => 0
  | (_, t) :: children => remaining t + remainingAll children

end

mutual

/-- A bound on the steps that are left, if there are no further visits. -/
def work : Task ι α ε → ℕ
  | .waiting _ _ => 2
  | .joined _ children => 1 + workAll children
  | .done _ => 0

def workAll : List (ι × Task ι α ε) → ℕ
  | [] => 0
  | (_, t) :: children => work t + workAll children

end

mutual

/-- The failures that were reported when the task has come this far. -/
def reported : Task ι α ε → ι → List α → List (Failure ι α ε)
  | .waiting _ _, _, _ => []
  | .joined path children, _, _ => reportedAll children path
  | .done _, id, path => (explore P id path).failures

def reportedAll : List (ι × Task ι α ε) → List α → List (Failure ι α ε)
  | [], _ => []
  | (id, t) :: children, path => reported t id path ++ reportedAll children path

end

mutual

/-- There was a request for each id that is waited for. -/
def Awaits (ids : List ι) : Task ι α ε → Prop
  | .waiting id _ => id ∈ ids
  | .joined _ children => AwaitAll ids children
  | .done _ => True

def AwaitAll (ids : List ι) : List (ι × Task ι α ε) → Prop
  | [] => True
  | (_, t) :: children => Awaits ids t ∧ AwaitAll ids children

end

variable {P E}

omit [DecidableEq ι] in
theorem followAll_iff {children : List (ι × Task ι α ε)} {path : List α} :
    FollowAll P E children path ↔ ∀ c ∈ children, Follows P E c.2 c.1 path := by
  induction children with
  | nil => simp [FollowAll]
  | cons c children ih => rw [FollowAll, ih, List.forall_mem_cons]

omit [DecidableEq ι] in
theorem remainingAll_eq (children : List (ι × Task ι α ε)) :
    remainingAll P children = (children.map fun c => remaining P c.2).sum := by
  induction children with
  | nil => rfl
  | cons c children ih => rw [remainingAll, ih, List.map_cons, List.sum_cons]

omit [DecidableEq ι] in
theorem workAll_eq (children : List (ι × Task ι α ε)) :
    workAll children = (children.map fun c => work c.2).sum := by
  induction children with
  | nil => rfl
  | cons c children ih => rw [workAll, ih, List.map_cons, List.sum_cons]

omit [DecidableEq ι] in
theorem reportedAll_eq (children : List (ι × Task ι α ε)) (path : List α) :
    reportedAll P children path = children.flatMap fun c => reported P c.2 c.1 path := by
  induction children with
  | nil => rfl
  | cons c children ih => rw [reportedAll, ih, List.flatMap_cons]

omit [DecidableEq ι] in
theorem awaitAll_iff {ids : List ι} {children : List (ι × Task ι α ε)} :
    AwaitAll ids children ↔ ∀ c ∈ children, Awaits ids c.2 := by
  induction children with
  | nil => simp [AwaitAll]
  | cons c children ih => rw [AwaitAll, ih, List.forall_mem_cons]

omit [DecidableEq ι] in
theorem Awaits.mono {ids ids' : List ι} (h : ids ⊆ ids') {t : Task ι α ε} (ht : Awaits ids t) :
    Awaits ids' t := by
  induction t with
  | waiting id path => exact h ht
  | joined path children ih =>
    rw [Awaits, awaitAll_iff] at ht ⊢
    exact fun c hc => ih c hc (ht c hc)
  | done result => trivial

/-! ## What is shared -/

/-- What is known of the ids is what they lead to, up to the budget. -/
structure Knows (P : Problem ι α ε) (E : Prop) (s : Shared ι α ε) : Prop where
  ok : ∀ id a, s.cache.lookup id = some (some (.ok a)) → P.look id = .ok a
  exact : E → ∀ id r, s.cache.lookup id = some (some r) → r = P.look id
  requests_le : s.requests ≤ s.visits
  nodup : s.requested.Nodup
  requested_subset : s.requested ⊆ keys s.cache
  requested_le : s.requested.length ≤ s.requests
  requested_le_budget : s.requested.length ≤ P.budget
  visited_le : s.visited.length ≤ s.visits
  visited_le_budget : s.visited.length ≤ P.budget

/-- The ids whose request has not come back. -/
def pending (s : Shared ι α ε) : ℕ := (s.cache.filter fun m => m.2.isNone).length

theorem keys_subset_insert {β : Type*} (id : ι) (v : β) (l : List (ι × β)) :
    keys l ⊆ keys (insert id v l) := by
  rw [keys_insert]
  split
  · exact List.Subset.refl _
  · exact List.subset_append_left _ _

theorem mem_keys_insert {β : Type*} (id : ι) (v : β) (l : List (ι × β)) :
    id ∈ keys (insert id v l) := by
  rw [keys_insert]
  split
  case isTrue h => exact h
  case isFalse => simp

/-- What an id leads to is stored. -/
theorem Knows.insert {s : Shared ι α ε} (h : Knows P E s) (id : ι) (v : Option (Except ε α))
    (hok : ∀ a, v = some (.ok a) → P.look id = .ok a)
    (hexact : E → ∀ r, v = some r → r = P.look id) :
    Knows P E { s with cache := AssocList.insert id v s.cache } := by
  refine { h with
    ok := fun id' a hl => ?_, exact := fun hE id' r hl => ?_
    requested_subset := fun x hx => keys_subset_insert id v s.cache (h.requested_subset hx) }
  · rw [lookup_insert] at hl
    split at hl
    case isTrue heq => exact heq ▸ hok a (Option.some.inj hl)
    case isFalse => exact h.ok id' a hl
  · rw [lookup_insert] at hl
    split at hl
    case isTrue heq => exact heq ▸ hexact hE r (Option.some.inj hl)
    case isFalse => exact h.exact hE id' r hl

theorem pending_insert_le (s : Shared ι α ε) (id : ι) (v : Option (Except ε α)) :
    pending { s with cache := AssocList.insert id v s.cache } ≤ pending s + 1 := by
  simp only [pending]
  induction s.cache with
  | nil => cases v <;> simp [AssocList.insert]
  | cons m l ih =>
    rw [AssocList.insert]
    split
    case isTrue => cases v <;> cases m.2 <;> simp [List.filter_cons] <;> split <;> simp <;> omega
    case isFalse =>
      rw [List.filter_cons, List.filter_cons]
      split
      · rw [List.length_cons, List.length_cons]
        omega
      · exact ih

/-- When the request of an id comes back, one request less is under way. -/
theorem pending_settle (s : Shared ι α ε) {id : ι} (h : s.cache.lookup id = some none)
    (r : Except ε α) :
    pending { s with cache := AssocList.insert id (some r) s.cache } + 1 = pending s := by
  simp only [pending]
  induction hc : s.cache generalizing s with
  | nil =>
    rw [hc] at h
    cases h
  | cons m l ih =>
    rw [hc] at h
    rw [AssocList.insert]
    obtain ⟨key, v⟩ := m
    by_cases hkey : key = id
    · subst hkey
      rw [lookup_cons_of_eq] at h
      cases h
      rw [if_pos rfl]
      simp
    · rw [lookup_cons_of_ne (m := (key, v)) hkey] at h
      rw [if_neg hkey, List.filter_cons, List.filter_cons]
      have hrest := ih { s with cache := l } h rfl
      dsimp only at hrest ⊢
      split
      · rw [List.length_cons, List.length_cons]
        omega
      · exact hrest

/-! ## Starting branches -/

/-- What a request does to what is shared. -/
structure Requested (P : Problem ι α ε) (E : Prop) (id : ι) (s s' : Shared ι α ε) : Prop where
  knows : Knows P E s'
  visits : s'.visits = s.visits
  visited : s'.visited = s.visited
  failures : s'.failures = s.failures
  keys_subset : keys s.cache ⊆ keys s'.cache
  mem : id ∈ keys s'.cache
  pending_le : pending s' ≤ pending s + 1

theorem requested (id : ι) {s : Shared ι α ε} (h : Knows P E s) (hlt : s.requests + 1 ≤ s.visits)
    (hE : E → s.visits ≤ P.budget) : Requested P E id s (request P id s) := by
  rw [request]
  split
  case h_1 v hv =>
    refine ⟨h, rfl, rfl, rfl, List.Subset.refl _, ?_, Nat.le_succ _⟩
    by_contra hnot
    rw [lookup_eq_none_iff.mpr hnot] at hv
    cases hv
  case h_2 hnone =>
    have hnew : id ∉ s.requested :=
      fun hmem => lookup_eq_none_iff.mp hnone (h.requested_subset hmem)
    split
    case isTrue =>
      split
      case isTrue hover =>
        -- a request beyond the budget is not exact
        have hk := h.insert id (some (.error P.requestsError)) nofun fun e _ _ => by
          have := hE e
          omega
        refine ⟨{ hk with requests_le := hlt, requested_le := ?_ }, rfl, rfl, rfl,
          keys_subset_insert .., mem_keys_insert .., pending_insert_le ..⟩
        exact Nat.le_succ_of_le h.requested_le
      case isFalse hbudget =>
        have hk := h.insert id none nofun nofun
        have hle := h.requested_le
        refine ⟨{ hk with
          requests_le := hlt, nodup := ?_, requested_subset := ?_, requested_le := ?_,
          requested_le_budget := ?_ }, rfl, rfl, rfl, keys_subset_insert .., mem_keys_insert ..,
            pending_insert_le ..⟩
        · exact h.nodup.append (List.nodup_singleton id) (by simpa using hnew)
        · exact List.append_subset.mpr
            ⟨hk.requested_subset, by simpa using mem_keys_insert id none s.cache⟩
        · rw [List.length_append, List.length_singleton]
          dsimp only
          omega
        · rw [List.length_append, List.length_singleton]
          omega
    case isFalse =>
      have hk := h.insert id (some (P.look id)) (fun a ha => Option.some.inj ha)
        fun _ r hr => (Option.some.inj hr).symm
      exact ⟨hk, rfl, rfl, rfl, keys_subset_insert .., mem_keys_insert .., pending_insert_le ..⟩

/-- What starting branches does. -/
structure Started (P : Problem ι α ε) (E : Prop) (path : List α) (ids : List ι) (s : Shared ι α ε)
    (children : List (ι × Task ι α ε)) (s' : Shared ι α ε) : Prop where
  knows : Knows P E s'
  ids_eq : children.map Prod.fst = ids
  follows : FollowAll P E children path
  awaits : AwaitAll (keys s'.cache) children
  visits : s'.visits = s.visits + ids.length
  failures : s'.failures = s.failures
  keys_subset : keys s.cache ⊆ keys s'.cache
  remaining_le : remainingAll P children + ids.length ≤
    (ids.map fun id => (explore P id path).visits).sum
  work_le : workAll children + pending s' + 3 * s.visited.length ≤ pending s + 3 * s'.visited.length
  reported : reportedAll P children path = [] ∨ ¬E

theorem started_one (id : ι) (path : List α) {s : Shared ι α ε} (h : Knows P E s)
    (hE : E → s.visits + 1 ≤ P.budget) :
    Started P E path [id] s [(id, (start P id path s).1)] (start P id path s).2 := by
  have hone := one_le_visits (P := P) id path
  rw [start]
  split
  case isTrue hover =>
    have hnot : ¬E := fun e => by
      have := hE e
      omega
    refine ⟨{ h with
        requests_le := Nat.le_succ_of_le h.requests_le
        visited_le := Nat.le_succ_of_le h.visited_le }, rfl,
      ⟨⟨List.nil_sublist _, fun e => absurd e hnot⟩, trivial⟩, ⟨trivial, trivial⟩, rfl, rfl,
      List.Subset.refl _, ?_, ?_, .inr hnot⟩
    · simpa [remainingAll, remaining] using hone
    · simp only [workAll, work, pending]
      omega
  case isFalse hbudget =>
    have hk : Knows P E { s with visits := s.visits + 1, visited := s.visited ++ [id] } :=
      { h with
        requests_le := Nat.le_succ_of_le h.requests_le
        visited_le := by
          rw [List.length_append, List.length_singleton]
          exact Nat.succ_le_succ h.visited_le
        visited_le_budget := by
          have hle := h.visited_le
          rw [List.length_append, List.length_singleton]
          omega }
    obtain ⟨hknows, hvisits, hvisited, hfailures, hsub, hmem, hpending⟩ :=
      requested id hk (Nat.succ_le_succ h.requests_le) hE
    refine ⟨hknows, rfl, ⟨⟨rfl, rfl⟩, trivial⟩, ⟨hmem, trivial⟩, hvisits, hfailures,
      hsub, ?_, ?_, .inl rfl⟩
    · simp only [remainingAll, remaining, List.length_singleton, List.map_cons, List.map_nil,
        List.sum_cons, List.sum_nil]
      omega
    · have hpend : pending (request P id
          { s with visits := s.visits + 1, visited := s.visited ++ [id] }) ≤ pending s + 1 :=
        hpending
      rw [hvisited]
      simp only [workAll, work, List.length_append, List.length_singleton]
      omega

theorem started (path : List α) (ids : List ι) {s : Shared ι α ε} (h : Knows P E s)
    (hE : E → s.visits + ids.length ≤ P.budget) :
    Started P E path ids s (startAll P path ids s).1 (startAll P path ids s).2 := by
  induction ids generalizing s with
  | nil =>
    have hwork : 0 + pending s + 3 * s.visited.length ≤ pending s + 3 * s.visited.length := by omega
    exact ⟨h, rfl, trivial, trivial, rfl, rfl, List.Subset.refl _, Nat.le_refl _, hwork, .inl rfl⟩
  | cons id ids ih =>
    have hone := started_one id path h fun e => by
      have hle := hE e
      rw [List.length_cons] at hle
      omega
    have hrest := ih hone.knows fun e => by
      have hle := hE e
      have hv := hone.visits
      rw [List.length_cons] at hle
      rw [List.length_singleton] at hv
      omega
    have hremaining := hone.remaining_le
    have hwork := hone.work_le
    have hremaining' := hrest.remaining_le
    have hwork' := hrest.work_le
    simp only [remainingAll, workAll, List.length_singleton, List.map_cons, List.map_nil,
      List.sum_cons, List.sum_nil] at hremaining hwork
    rw [startAll]
    refine ⟨hrest.knows, congrArg (id :: ·) hrest.ids_eq, ⟨hone.follows.1, hrest.follows⟩,
      ⟨hone.awaits.1.mono hrest.keys_subset, hrest.awaits⟩, ?_, hrest.failures.trans hone.failures,
      fun x hx => hrest.keys_subset (hone.keys_subset hx), ?_, ?_, ?_⟩
    · rw [hrest.visits, hone.visits, List.length_singleton, List.length_cons]
      omega
    · simp only [remainingAll, List.length_cons, List.map_cons, List.sum_cons]
      omega
    · dsimp only
      rw [workAll]
      omega
    · rcases hone.reported with hnil | hnot
      · rcases hrest.reported with hnil' | hnot
        · left
          simp only [reportedAll, List.append_nil] at hnil ⊢
          rw [hnil, hnil']
          rfl
        · exact .inr hnot
      · exact .inr hnot

/-! ## What a step does -/

/-- What a step of a branch keeps: it makes the visits that were left, and reports what the search
reports. -/
structure Stepped (P : Problem ι α ε) (E : Prop) (id : ι) (path : List α) (t : Task ι α ε)
    (s : Shared ι α ε) (t' : Task ι α ε) (s' : Shared ι α ε) : Prop where
  knows : Knows P E s'
  follows : Follows P E t' id path
  awaits : Awaits (keys s'.cache) t'
  keys_subset : keys s.cache ⊆ keys s'.cache
  visits_le : s'.visits + remaining P t' ≤ s.visits + remaining P t
  work_lt : work t' + pending s' + 3 * s.visited.length < work t + pending s + 3 * s'.visited.length
  failures : E → (s'.failures ++ reported P t id path).Perm (s.failures ++ reported P t' id path)

theorem sublist_flatMap {β γ : Type*} {l : List β} {f g : β → List γ}
    (h : ∀ x ∈ l, (f x).Sublist (g x)) :
    (l.flatMap f).Sublist (l.flatMap g) := by
  induction l with
  | nil => exact List.Sublist.refl _
  | cons x l ih =>
    obtain ⟨hx, hl⟩ := List.forall_mem_cons.mp h
    rw [List.flatMap_cons, List.flatMap_cons]
    exact hx.append (ih hl)

omit [DecidableEq ι] in
/-- A branch that has ended has found some of what the search finds. -/
theorem Follows.found {t : Task ι α ε} {id : ι} {path : List α} (h : Follows P E t id path)
    (hd : t.isDone) :
    (fulfilled t.found).Sublist (fulfilled (explore P id path).result) ∧
      (E → t.found = (explore P id path).result) ∧
      reported P t id path = (explore P id path).failures := by
  cases t with
  | waiting id' path' => cases hd
  | joined path' children => cases hd
  | done result => exact ⟨h.1, h.2, rfl⟩

theorem stepped_resumeError {id : ι} {path : List α} {s : Shared ι α ε} {error : ε}
    (hk : Knows P E s) (hl : s.cache.lookup id = some (some (.error error))) :
    Stepped P E id path (.waiting id path) s (.done (.error error)) s := by
  have hone := one_le_visits (P := P) id path
  have herror : E → P.look id = .error error := fun e => (hk.exact e id _ hl).symm
  refine ⟨hk, ⟨List.nil_sublist _, fun e => ?_⟩, trivial, List.Subset.refl _,
    Nat.le_add_right _ _, ?_, fun e => ?_⟩
  · rw [explore_of_error (herror e)]
  · simp only [work]
    omega
  · rw [reported, reported, explore_of_error (herror e)]

theorem stepped_resume {id : ι} {path : List α} {s : Shared ι α ε} {a : α} (hk : Knows P E s)
    (hl : s.cache.lookup id = some (some (.ok a)))
    (hE : E → s.visits + remaining P (.waiting id path : Task ι α ε) ≤ P.budget) :
    Stepped P E id path (.waiting id path) s
      (.joined (path ++ [a]) (startAll P (path ++ [a]) (P.next (path ++ [a])) s).1)
      (startAll P (path ++ [a]) (P.next (path ++ [a])) s).2 := by
  have hlook := hk.ok id a hl
  have hvisits : (explore P id path).visits =
      1 + ((P.next (path ++ [a])).map fun id' => (explore P id' (path ++ [a])).visits).sum := by
    rw [explore_of_ok hlook, branch, List.map_map]
    rfl
  have hlength : (P.next (path ++ [a])).length ≤
      ((P.next (path ++ [a])).map fun id' => (explore P id' (path ++ [a])).visits).sum := by
    have hle := List.length_le_sum_of_one_le
      ((P.next (path ++ [a])).map fun id' => (explore P id' (path ++ [a])).visits)
      fun n hn => by
        obtain ⟨id', -, rfl⟩ := List.mem_map.mp hn
        exact one_le_visits id' _
    rwa [List.length_map] at hle
  have hst := started (path ++ [a]) (P.next (path ++ [a])) hk fun e => by
    have hle := hE e
    rw [remaining] at hle
    omega
  refine ⟨hst.knows, ⟨a, hlook, rfl, hst.ids_eq, hst.follows⟩, hst.awaits,
    hst.keys_subset, ?_, ?_, fun e => ?_⟩
  · have hremaining := hst.remaining_le
    rw [hst.visits, remaining, remaining]
    omega
  · have hwork := hst.work_le
    rw [work, work]
    omega
  · rw [hst.failures, reported, reported, hst.reported.resolve_right (not_not.mpr e)]

theorem stepped_join {id : ι} {path path' : List α} {children : List (ι × Task ι α ε)}
    {s : Shared ι α ε} (hk : Knows P E s) (hf : Follows P E (.joined path' children) id path)
    (hd : ∀ c ∈ children, c.2.isDone) :
    Stepped P E id path (.joined path' children) s
      (.done (.ok (here P path' ++ children.flatMap fun c => fulfilled c.2.found)))
      { s with failures := s.failures ++ children.flatMap fun c =>
        rejected path' c.1 c.2.found } := by
  obtain ⟨a, hlook, rfl, hids, hall⟩ := hf
  have hfound := fun c hc => (followAll_iff.mp hall c hc).found (hd c hc)
  -- the branches that were started are those of the search
  have houts : explore P id path = branch P (path ++ [a])
      (children.map fun c => (c.1, explore P c.1 (path ++ [a]))) := by
    rw [explore_of_ok hlook, ← hids, List.map_map]
    rfl
  refine ⟨{ hk with }, ⟨?_, fun e => ?_⟩, trivial, List.Subset.refl _,
    Nat.le_add_right _ _, ?_, fun e => ?_⟩
  · rw [houts]
    simp only [branch, fulfilled, List.flatMap_map]
    exact List.Sublist.append (List.Sublist.refl _) (sublist_flatMap fun c hc => (hfound c hc).1)
  · rw [houts]
    simp only [branch, List.flatMap_map]
    exact congrArg (fun paths => Except.ok (here P (path ++ [a]) ++ paths))
      (List.flatMap_congr fun c hc => congrArg fulfilled ((hfound c hc).2.1 e))
  · show 0 + pending s + 3 * s.visited.length < 1 + workAll children + pending s +
      3 * s.visited.length
    omega
  · have hreported : reportedAll P children (path ++ [a]) =
        children.flatMap fun c => (explore P c.1 (path ++ [a])).failures := by
      rw [reportedAll_eq]
      exact List.flatMap_congr fun c hc => (hfound c hc).2.2
    have hrejected : (children.flatMap fun c => rejected (path ++ [a]) c.1 c.2.found) =
        children.flatMap fun c => rejected (path ++ [a]) c.1 (explore P c.1 (path ++ [a])).result :=
      List.flatMap_congr fun c hc => congrArg (rejected _ c.1) ((hfound c hc).2.1 e)
    rw [reported, reported, hreported, hrejected, houts]
    simp only [branch, List.flatMap_map]
    rw [List.append_assoc]
    exact List.Perm.append_left _ List.perm_append_comm

theorem stepped {t t' : Task ι α ε} {s s' : Shared ι α ε} (h : Step P t s t' s') {id : ι}
    {path : List α} (hk : Knows P E s) (hf : Follows P E t id path) (ha : Awaits (keys s.cache) t)
    (hE : E → s.visits + remaining P t ≤ P.budget) : Stepped P E id path t s t' s' := by
  induction h generalizing id path with
  | @settle t s id' hl =>
    have hk' := hk.insert id' (some (P.look id')) (fun a h => Option.some.inj h)
      fun _ r h => (Option.some.inj h).symm
    have hpending := pending_settle s hl (P.look id')
    have hwork : work t +
        pending { s with cache := AssocList.insert id' (some (P.look id')) s.cache } +
        3 * s.visited.length < work t + pending s + 3 * s.visited.length := by omega
    exact ⟨hk', hf, ha.mono (keys_subset_insert ..), keys_subset_insert .., Nat.le_refl _, hwork,
      fun _ => .refl _⟩
  | resumeError hl =>
    obtain ⟨rfl, rfl⟩ := hf
    exact stepped_resumeError hk hl
  | resume hl =>
    obtain ⟨rfl, rfl⟩ := hf
    exact stepped_resume hk hl hE
  | join hd => exact stepped_join hk hf hd
  | @child path' before after id' t t' s s' _ ih =>
    obtain ⟨a, hlook, hpath, hids, hall⟩ := hf
    rw [Awaits, awaitAll_iff] at ha
    rw [followAll_iff] at hall
    have hmem : (id', t) ∈ before ++ (id', t) :: after := by simp
    have hremaining : ∀ t : Task ι α ε, remaining P (.joined path' (before ++ (id', t) :: after)) =
        remaining P t + (remainingAll P before + remainingAll P after) := fun t => by
      rw [remaining, remainingAll_eq, remainingAll_eq, remainingAll_eq]
      simp only [List.map_append, List.map_cons, List.sum_append, List.sum_cons]
      omega
    have hwork : ∀ t : Task ι α ε, work (.joined path' (before ++ (id', t) :: after)) =
        work t + (1 + workAll before + workAll after) := fun t => by
      rw [work, workAll_eq, workAll_eq, workAll_eq]
      simp only [List.map_append, List.map_cons, List.sum_append, List.sum_cons]
      omega
    have hst := ih hk (hall _ hmem) (ha _ hmem) fun e => by
      have hle := hE e
      rw [hremaining] at hle
      omega
    refine ⟨hst.knows, ⟨a, hlook, hpath, ?_, ?_⟩, ?_, hst.keys_subset, ?_, ?_, fun e => ?_⟩
    · rw [← hids]
      simp
    · refine followAll_iff.mpr fun c hc => ?_
      rcases List.mem_append.mp hc with hc | hc
      · exact hall c (List.mem_append_left _ hc)
      · rcases List.mem_cons.mp hc with rfl | hc
        · exact hst.follows
        · exact hall c (List.mem_append_right _ (List.mem_cons_of_mem _ hc))
    · refine awaitAll_iff.mpr fun c hc => ?_
      rcases List.mem_append.mp hc with hc | hc
      · exact (ha c (List.mem_append_left _ hc)).mono hst.keys_subset
      · rcases List.mem_cons.mp hc with rfl | hc
        · exact hst.awaits
        · exact (ha c (List.mem_append_right _ (List.mem_cons_of_mem _ hc))).mono hst.keys_subset
    · have hle := hst.visits_le
      rw [hremaining, hremaining]
      omega
    · have hlt := hst.work_lt
      rw [hwork, hwork]
      omega
    · have hperm := hst.failures e
      rw [reported, reported, reportedAll_eq, reportedAll_eq, List.flatMap_append,
        List.flatMap_append, List.flatMap_cons, List.flatMap_cons]
      dsimp only
      -- the failures of the other branches stay where they are
      refine (List.Perm.append_left _ (List.perm_append_comm_assoc _ _ _)).trans ?_
      rw [← List.append_assoc]
      refine (hperm.append_right _).trans ?_
      rw [List.append_assoc]
      exact List.Perm.append_left _ (List.perm_append_comm_assoc _ _ _)

/-! ## Runs -/

/-- The run makes no visit beyond the budget, as the whole search makes fewer. -/
def WithinBudget (P : Problem ι α ε) (id : ι) : Prop := (explore P id []).visits ≤ P.budget

/-- What holds in every state of a run. -/
structure Reached (P : Problem ι α ε) (id : ι) (n : ℕ) (t : Task ι α ε)
    (s : Shared ι α ε) : Prop where
  knows : Knows P (WithinBudget P id) s
  follows : Follows P (WithinBudget P id) t id []
  awaits : Awaits (keys s.cache) t
  visits_le : s.visits + remaining P t ≤ (explore P id []).visits
  work_le : n + (work t + pending s) ≤ 3 * s.visited.length
  failures : WithinBudget P id → s.failures.Perm (reported P t id [])

theorem Reaches.reached {id : ι} {n : ℕ} {t : Task ι α ε} {s : Shared ι α ε}
    (h : Reaches P id n t s) :
    Reached P id n t s := by
  induction h with
  | start =>
    have hone := one_le_visits (P := P) id []
    have hempty : Knows P (WithinBudget P id) ({} : Shared ι α ε) :=
      ⟨nofun, nofun, Nat.le_refl _, List.nodup_nil, List.nil_subset _, Nat.le_refl _, Nat.zero_le _,
        Nat.le_refl _, Nat.zero_le _⟩
    have hst := started_one id [] hempty fun hw => by
      have hle : (explore P id []).visits ≤ P.budget := hw
      exact Nat.le_trans hone hle
    have hvisits := hst.visits
    have hremaining := hst.remaining_le
    have hwork := hst.work_le
    simp only [remainingAll, workAll, pending, List.filter_nil, List.length_nil,
      List.length_singleton, List.map_cons, List.map_nil, List.sum_cons, List.sum_nil]
      at hvisits hremaining hwork
    refine ⟨hst.knows, hst.follows.1, hst.awaits.1, by omega, ?_, fun hw => ?_⟩
    · simp only [pending]
      omega
    · have hnil := hst.reported.resolve_right (not_not.mpr hw)
      rw [reportedAll, reportedAll, List.append_nil] at hnil
      rw [hst.failures, hnil]
  | step _ hstep ih =>
    have hst := stepped hstep ih.knows ih.follows ih.awaits fun hw => Nat.le_trans ih.visits_le hw
    have hlt := hst.work_lt
    have hle := ih.work_le
    refine ⟨hst.knows, hst.follows, hst.awaits, Nat.le_trans hst.visits_le ih.visits_le, by
      omega, fun hw => ?_⟩
    -- what was reported before the step is what the task had reported
    have hswap := (hst.failures hw).trans
      (((ih.failures hw).append_right _).trans List.perm_append_comm)
    exact (List.perm_append_right_iff _).mp hswap

/-- What is found in any order is some of what the search finds. -/
theorem Reaches.sublist {id : ι} {n : ℕ} {result : Result α ε} {s : Shared ι α ε}
    (h : Reaches P id n (.done result) s) :
    (fulfilled result).Sublist (fulfilled (explore P id []).result) :=
  h.reached.follows.1

/-- Within the budget the order of the steps does not matter. -/
theorem Reaches.exact {id : ι} {n : ℕ} {result : Result α ε} {s : Shared ι α ε}
    (h : Reaches P id n (.done result) s) (hw : (explore P id []).visits ≤ P.budget) :
    result = (explore P id []).result ∧ s.failures.Perm (explore P id []).failures :=
  ⟨h.reached.follows.2 hw, h.reached.failures hw⟩

/-- No run makes more requests or visits than the budget, or two requests for one id. -/
theorem Reaches.budget {id : ι} {n : ℕ} {t : Task ι α ε} {s : Shared ι α ε}
    (h : Reaches P id n t s) :
    s.requested.Nodup ∧ s.requested.length ≤ P.budget ∧ s.visited.length ≤ P.budget :=
  ⟨h.reached.knows.nodup, h.reached.knows.requested_le_budget, h.reached.knows.visited_le_budget⟩

/-- No run takes more than three steps for each visit that the budget allows. -/
theorem Reaches.length_le {id : ι} {n : ℕ} {t : Task ι α ε} {s : Shared ι α ε}
    (h : Reaches P id n t s) :
    n ≤ 3 * P.budget := by
  have hle := h.reached.work_le
  have hbudget := h.reached.knows.visited_le_budget
  omega

/-- A task that has not ended can take a step. -/
theorem exists_step {t : Task ι α ε} {s : Shared ι α ε} (ha : Awaits (keys s.cache) t)
    (hd : t.isDone = false) :
    ∃ t' s', Step P t s t' s' := by
  induction t with
  | waiting id path =>
    obtain ⟨v, hv⟩ := Option.isSome_iff_exists.mp (lookup_isSome_iff.mpr ha)
    cases v with
    | none => exact ⟨_, _, .settle hv⟩
    | some r =>
      cases r with
      | error error => exact ⟨_, _, .resumeError hv⟩
      | ok a => exact ⟨_, _, .resume hv⟩
  | joined path children ih =>
    by_cases hall : ∀ c ∈ children, c.2.isDone
    · exact ⟨_, _, .join hall⟩
    · -- a branch that has not ended takes the step
      obtain ⟨c, hc, hnot⟩ : ∃ c ∈ children, c.2.isDone = false := by
        simpa using hall
      obtain ⟨t', s', hstep⟩ := ih c hc (awaitAll_iff.mp ha c hc) hnot
      obtain ⟨before, after, rfl⟩ := List.append_of_mem hc
      exact ⟨_, _, .child hstep⟩
  | done result => cases hd

theorem Reaches.progress {id : ι} {n : ℕ} {t : Task ι α ε} {s : Shared ι α ε}
    (h : Reaches P id n t s) (hd : t.isDone = false) : ∃ t' s', Reaches P id (n + 1) t' s' := by
  obtain ⟨t', s', hstep⟩ := exists_step (P := P) h.reached.awaits hd
  exact ⟨t', s', .step h hstep⟩

/-- Every run can be continued to its end. -/
theorem Reaches.ends {id : ι} {n : ℕ} {t : Task ι α ε} {s : Shared ι α ε} (h : Reaches P id n t s) :
    ∃ m result s', n ≤ m ∧ Reaches P id m (.done result) s' := by
  obtain ⟨k, hk⟩ : ∃ k, k + n = 3 * P.budget := ⟨_, Nat.sub_add_cancel h.length_le⟩
  induction k generalizing n t s with
  | zero =>
    -- after as many steps as there can be, the run has ended
    cases t with
    | done result => exact ⟨n, result, s, Nat.le_refl n, h⟩
    | waiting id' path =>
      obtain ⟨t', s', h'⟩ := h.progress rfl
      have hle := h'.length_le
      omega
    | joined path children =>
      obtain ⟨t', s', h'⟩ := h.progress rfl
      have hle := h'.length_le
      omega
  | succ k ih =>
    by_cases hd : t.isDone = false
    · obtain ⟨t', s', h'⟩ := h.progress hd
      obtain ⟨m, result, s'', hm, hend⟩ := ih h' (by omega)
      exact ⟨m, result, s'', by omega, hend⟩
    · cases t with
      | done result => exact ⟨n, result, s, Nat.le_refl n, h⟩
      | waiting id' path => exact absurd rfl hd
      | joined path children => exact absurd rfl hd

end IdentityCommon.ConcurrentSearch
