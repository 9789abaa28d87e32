import Forge.Engine.Scheduler
import Forge.Theory.Acyclic

/-! # The graph of the scheduler

The graph has the jobs for its keys, the needs as declared, and for each need of a job one entry in the
dependents of that need.
-/
namespace Forge.Engine
open Forge.Python Forge.Theory
set_option autoImplicit false

/-- What the constructor's first two steps make of the jobs. -/
structure Graph.Of (jobs : JobsConfig) (graph : Graph) : Prop where
  keys : graph.keys = jobs.keys
  needs : ∀ job, graph.needs job = needsOf jobs job
  count_dependents : ∀ dep ∈ jobs.keys, ∀ job,
    (graph.dependents dep).count job = (needsOf jobs job).count dep

theorem Graph.Of.mem_needs {jobs : JobsConfig} {graph : Graph} (h : Graph.Of jobs graph)
    {job dep : String} : dep ∈ graph.needs job ↔ Needs jobs job dep := by
  rw [Needs, h.needs job]

theorem Graph.Of.mem_dependents {jobs : JobsConfig} {graph : Graph} (h : Graph.Of jobs graph)
    {dep : String} (hDep : dep ∈ jobs.keys) {job : String} :
    job ∈ graph.dependents dep ↔ Needs jobs job dep := by
  rw [Needs, ← List.count_pos_iff, ← List.count_pos_iff, h.count_dependents dep hDep]

theorem Graph.Of.dependents_subset {jobs : JobsConfig} {graph : Graph} (h : Graph.Of jobs graph)
    {dep job : String} (hDep : dep ∈ jobs.keys) (hMem : job ∈ graph.dependents dep) :
    job ∈ jobs.keys :=
  ((h.mem_dependents hDep).mp hMem).mem_keys

/-! ## Nodes -/

def nodeEntry (entry : String × JobConfig) : String × JobNode :=
  (entry.1, { name := entry.1, needs := entry.2.needs })

theorem map_fst_nodeEntry (entries : List (String × JobConfig)) :
    (entries.map nodeEntry).map Prod.fst = entries.map Prod.fst := by
  rw [List.map_map]
  rfl

theorem addNode_ok {jobs : JobsConfig} {graph : Graph} {entry : String × JobConfig}
    (h : ∀ dep ∈ entry.2.needs, dep ∈ jobs.keys) :
    addNode jobs graph entry = .ok (graph.set (nodeEntry entry).1 (nodeEntry entry).2) := by
  have hNone : entry.2.needs.find? (fun dep => dep ∉ jobs.keys) = none := by
    simpa [List.find?_eq_none] using h
  rw [addNode, hNone]
  rfl

theorem foldlM_addNode {jobs : JobsConfig} (entries : List (String × JobConfig)) (graph : Graph)
    (h : ∀ entry ∈ entries, ∀ dep ∈ entry.2.needs, dep ∈ jobs.keys) :
    entries.foldlM (addNode jobs) graph =
      .ok ((entries.map nodeEntry).foldl (fun g e => g.set e.1 e.2) graph) := by
  induction entries generalizing graph with
  | nil => rfl
  | cons entry rest ih =>
    rw [List.foldlM_cons, addNode_ok (h entry List.mem_cons_self)]
    exact ih _ fun e he => h e (List.mem_cons_of_mem _ he)

theorem buildGraph_ok {jobs : JobsConfig} (hKnown : NeedsKnown jobs) :
    ∃ graph, buildGraph jobs = .ok graph ∧ graph.entries = jobs.entries.map nodeEntry := by
  refine ⟨_, foldlM_addNode jobs.entries .empty ?_, ?_⟩
  · intro entry hEntry dep hDep
    apply hKnown entry.1 dep
    rw [Needs, needsOf, Dict.get?_eq_some_iff.mpr hEntry]
    exact hDep
  · apply Dict.entries_ofList
    rw [map_fst_nodeEntry]
    exact jobs.nodup

theorem needs_of_addNode {jobs : JobsConfig} {graph graph' : Graph} {entry : String × JobConfig}
    (h : addNode jobs graph entry = .ok graph') : ∀ dep ∈ entry.2.needs, dep ∈ jobs.keys := by
  unfold addNode at h
  split at h
  · cases h
  · rename_i hNone
    simpa [List.find?_eq_none] using hNone

theorem needs_of_foldlM_addNode {jobs : JobsConfig} {entries : List (String × JobConfig)}
    {graph graph' : Graph} (h : entries.foldlM (addNode jobs) graph = .ok graph') :
    ∀ entry ∈ entries, ∀ dep ∈ entry.2.needs, dep ∈ jobs.keys := by
  induction entries generalizing graph with
  | nil => simp
  | cons entry rest ih =>
    rw [List.foldlM_cons] at h
    cases hAdd : addNode jobs graph entry with
    | error exc =>
      rw [hAdd] at h
      cases h
    | ok graph₁ =>
      rw [hAdd] at h
      intro other hOther
      cases List.mem_cons.mp hOther with
      | inl hHead => exact hHead ▸ needs_of_addNode hAdd
      | inr hRest => exact ih h other hRest

/-- A graph is built only when every need names a job. -/
theorem needsKnown_of_buildGraph {jobs : JobsConfig} {graph : Graph} (h : buildGraph jobs = .ok graph) :
    NeedsKnown jobs := by
  intro job dep hNeeds
  unfold Needs needsOf at hNeeds
  split at hNeeds
  · cases hNeeds
  · rename_i config hGet
    exact needs_of_foldlM_addNode h (job, config) (Dict.get?_eq_some_iff.mp hGet) dep hNeeds

theorem getEntry_nodeEntry (entries : List (String × JobConfig)) (job : String) :
    Dict.getEntry job (entries.map nodeEntry) =
      (Dict.getEntry job entries).map fun config => { name := job, needs := config.needs } := by
  induction entries with
  | nil => rfl
  | cons entry rest ih =>
    rw [List.map_cons, nodeEntry, Dict.getEntry, Dict.getEntry, ih]
    split
    · rename_i hKey
      subst hKey
      rfl
    · rfl

/-! ## Dependents -/

theorem addDependent_get? (graph : Graph) (dep jobName job : String) :
    (addDependent graph dep jobName).get? job = (graph.get? job).map fun node =>
      if job = dep then { node with dependents := node.dependents ++ [jobName] } else node := by
  unfold addDependent
  cases hDep : graph.get? dep with
  | none =>
    by_cases hJob : job = dep
    · subst hJob
      simp [hDep]
    · simp [hJob]
  | some node =>
    by_cases hJob : job = dep
    · subst hJob
      simp [hDep]
    · simp [hJob]

theorem addDependent_keys (graph : Graph) (dep jobName : String) :
    (addDependent graph dep jobName).keys = graph.keys := by
  unfold addDependent
  cases hDep : graph.get? dep with
  | none => rfl
  | some node =>
    exact Dict.keys_set_of_get? _ hDep

/-- Every need, with the job that declares it. -/
def edges (entries : List (String × JobNode)) : List (String × String) :=
  entries.flatMap fun entry => entry.2.needs.map fun dep => (dep, entry.1)

theorem computeDependents_eq (graph : Graph) :
    computeDependents graph = (edges graph.entries).foldl (fun g e => addDependent g e.1 e.2) graph := by
  simp only [computeDependents, edges, List.foldl_flatMap, List.foldl_map]

theorem foldl_addDependent_keys (items : List (String × String)) (graph : Graph) :
    (items.foldl (fun g e => addDependent g e.1 e.2) graph).keys = graph.keys := by
  induction items generalizing graph with
  | nil => rfl
  | cons e rest ih => rw [List.foldl_cons, ih, addDependent_keys]

def ownersOf (items : List (String × String)) (dep : String) : List String :=
  (items.filter fun e => e.1 = dep).map Prod.snd

theorem count_ownersOf (items : List (String × String)) (dep job : String) :
    (ownersOf items dep).count job = items.count (dep, job) := by
  induction items with
  | nil => rfl
  | cons e rest ih =>
    obtain ⟨d, j⟩ := e
    rw [ownersOf] at ih
    by_cases hDep : d = dep
    · simp [ownersOf, hDep, List.count_cons, ih]
    · simp [ownersOf, hDep, ih]

theorem foldl_addDependent_get? (items : List (String × String)) (graph : Graph) (job : String) :
    (items.foldl (fun g e => addDependent g e.1 e.2) graph).get? job =
      (graph.get? job).map fun node =>
        { node with dependents := node.dependents ++ ownersOf items job } := by
  induction items generalizing graph with
  | nil => simp [ownersOf]
  | cons e rest ih =>
    rw [List.foldl_cons, ih, addDependent_get?, Option.map_map]
    congr 1
    funext node
    by_cases hJob : job = e.1
    · simp [ownersOf, hJob]
    · simp [ownersOf, hJob, Ne.symm hJob]

theorem count_map_pair (needs : List String) (owner dep job : String) :
    (needs.map fun d => (d, owner)).count (dep, job) = if owner = job then needs.count dep else 0 := by
  induction needs with
  | nil => simp
  | cons d rest ih =>
    rw [List.map_cons, List.count_cons, ih, List.count_cons]
    by_cases hOwner : owner = job
    · by_cases hDep : d = dep
      · simp [hOwner, hDep]
      · simp [hOwner, hDep]
    · simp [hOwner]

theorem count_edges (entries : List (String × JobNode)) (h : (entries.map Prod.fst).Nodup)
    (dep job : String) :
    (edges entries).count (dep, job) =
      match Dict.getEntry job entries with
      | none => 0
      | some node => node.needs.count dep := by
  induction entries with
  | nil => rfl
  | cons entry rest ih =>
    obtain ⟨owner, node⟩ := entry
    rw [List.map_cons, List.nodup_cons] at h
    rw [edges, List.flatMap_cons, List.count_append, count_map_pair, Dict.getEntry]
    have hRest := ih h.2
    rw [edges] at hRest
    rw [hRest]
    by_cases hOwner : owner = job
    · subst hOwner
      have hNone : Dict.getEntry owner rest = none := by
        cases hEntry : Dict.getEntry owner rest with
        | none => rfl
        | some other => exact absurd (List.mem_map_of_mem (Dict.mem_of_getEntry rest hEntry)) h.1
      simp [hNone]
    · simp [hOwner]

theorem computeDependents_of {jobs : JobsConfig} {graph : Graph}
    (h : graph.entries = jobs.entries.map nodeEntry) : Graph.Of jobs (computeDependents graph) := by
  have hGet : ∀ job, graph.get? job =
      (jobs.get? job).map fun config => { name := job, needs := config.needs } := by
    intro job
    rw [Dict.get?, h, getEntry_nodeEntry]
    rfl
  rw [computeDependents_eq]
  constructor
  · rw [foldl_addDependent_keys, Dict.keys, h, map_fst_nodeEntry]
    rfl
  · intro job
    rw [Graph.needs, foldl_addDependent_get?, hGet, needsOf]
    cases jobs.get? job <;> rfl
  · intro dep hDep job
    obtain ⟨config, hConfig⟩ := Dict.mem_keys_iff.mp hDep
    rw [Graph.dependents, foldl_addDependent_get?, hGet, hConfig]
    simp only [Option.map_some, List.nil_append]
    rw [count_ownersOf, count_edges graph.entries graph.nodup, needsOf]
    have hEntry := hGet job
    rw [Dict.get?] at hEntry
    rw [hEntry]
    cases jobs.get? job <;> rfl

end Forge.Engine
