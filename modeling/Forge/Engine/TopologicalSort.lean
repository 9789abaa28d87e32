import Forge.Engine.CycleDetection

/-! # Kahn's algorithm

The in-degree of a job counts its needs that are not sorted yet, a repeated need as often as it is
repeated. The queue holds the unsorted jobs of in-degree zero, each once.
-/
namespace Forge.Engine
open Forge.Python Forge.Theory
set_option autoImplicit false

def KahnState.degree (st : KahnState) (job : String) : Int := st.inDegree.getD job 0

/-! ## Releasing the dependents of a job -/

theorem release_degree (st : KahnState) (d job : String) :
    (release st d).degree job = if job = d then st.degree d - 1 else st.degree job := by
  simp only [KahnState.degree, release, Dict.getD_set]

theorem release_queue (st : KahnState) (d : String) :
    (release st d).queue = if st.degree d = 1 then st.queue ++ [d] else st.queue := by
  have hIff : st.inDegree.getD d 0 - 1 = 0 ↔ st.degree d = 1 := by
    unfold KahnState.degree
    omega
  simp only [release, hIff]

theorem foldl_release_sortedJobs (ds : List String) (st : KahnState) :
    (ds.foldl release st).sortedJobs = st.sortedJobs := by
  induction ds generalizing st with
  | nil => rfl
  | cons d rest ih => rw [List.foldl_cons, ih, release]

theorem foldl_release (ds : List String) (st : KahnState)
    (hDegree : ∀ job ∈ ds, (ds.count job : Int) ≤ st.degree job) :
    (∀ job, (ds.foldl release st).degree job = st.degree job - ds.count job) ∧
    ∃ released, (ds.foldl release st).queue = st.queue ++ released ∧ released.Nodup ∧
      ∀ job, job ∈ released ↔ job ∈ ds ∧ st.degree job = ds.count job := by
  induction ds generalizing st with
  | nil =>
    refine ⟨fun job => by simp, [], by simp, List.nodup_nil, fun job => by simp⟩
  | cons d rest ih =>
    have hRest : ∀ job ∈ rest, (rest.count job : Int) ≤ (release st d).degree job := by
      intro job hJob
      have h := hDegree job (List.mem_cons_of_mem d hJob)
      rw [release_degree]
      by_cases hSame : job = d
      · subst hSame
        rw [List.count_cons_self] at h
        rw [if_pos rfl]
        omega
      · rw [List.count_cons_of_ne (Ne.symm hSame)] at h
        rw [if_neg hSame]
        exact h
    obtain ⟨hDegrees, released, hQueue, hNodup, hReleased⟩ := ih (release st d) hRest
    have hHead := hDegree d List.mem_cons_self
    rw [List.count_cons_self] at hHead
    refine ⟨?_, ?_⟩
    · intro job
      rw [List.foldl_cons, hDegrees, release_degree]
      by_cases hSame : job = d
      · subst hSame
        rw [if_pos rfl, List.count_cons_self]
        omega
      · rw [if_neg hSame, List.count_cons_of_ne (Ne.symm hSame)]
    · have hOther : ∀ job, job ≠ d → (job ∈ released ↔ job ∈ d :: rest ∧
          st.degree job = (d :: rest).count job) := by
        intro job hNe
        rw [hReleased, release_degree, if_neg hNe, List.count_cons_of_ne (Ne.symm hNe)]
        simp [hNe]
      have hSelf : d ∈ released ↔ d ∈ rest ∧ st.degree d - 1 = rest.count d := by
        rw [hReleased, release_degree, if_pos rfl]
      rw [List.foldl_cons, hQueue, release_queue]
      by_cases hOne : st.degree d = 1
      · -- the last need of `d` is gone, and `d` does not occur again
        have hZero : rest.count d = 0 := by omega
        have hAbsent : d ∉ rest := List.count_eq_zero.mp hZero
        refine ⟨d :: released, by simp [hOne], ?_, ?_⟩
        · exact List.nodup_cons.mpr ⟨fun hMem => hAbsent (hSelf.mp hMem).1, hNodup⟩
        · intro job
          by_cases hSame : job = d
          · subst hSame
            simp [hOne, hZero]
          · rw [List.mem_cons, hOther job hSame]
            simp [hSame]
      · refine ⟨released, by simp [hOne], hNodup, ?_⟩
        intro job
        by_cases hSame : job = d
        · subst hSame
          rw [hSelf, List.count_cons_self]
          constructor
          · rintro ⟨-, hEq⟩
            exact ⟨List.mem_cons_self, by omega⟩
          · rintro ⟨-, hEq⟩
            exact ⟨List.count_pos_iff.mp (by omega), by omega⟩
        · exact hOther job hSame

/-! ## The invariant of the queue -/

/-- Every job stands after all of its needs. -/
def Ordered (jobs : JobsConfig) (sorted : List String) : Prop :=
  ∀ pre job post, sorted = pre ++ job :: post → ∀ dep, Needs jobs job dep → dep ∈ pre

theorem Ordered.append {jobs : JobsConfig} {sorted : List String} {job : String}
    (h : Ordered jobs sorted) (hJob : ∀ dep, Needs jobs job dep → dep ∈ sorted) :
    Ordered jobs (sorted ++ [job]) :=
  Topological.append h hJob

/-- The needs of a job that are not sorted yet. -/
def pendingNeeds (jobs : JobsConfig) (sorted : List String) (job : String) : Nat :=
  (needsOf jobs job).countP fun dep => dep ∉ sorted

theorem countP_notMem_append (needs sorted : List String) {job : String} (h : job ∉ sorted) :
    (needs.countP fun dep => dep ∉ sorted) =
      (needs.countP fun dep => dep ∉ sorted ++ [job]) + needs.count job := by
  induction needs with
  | nil => rfl
  | cons dep rest ih =>
    rw [List.countP_cons, List.countP_cons, List.count_cons, ih]
    by_cases hSame : dep = job
    · subst hSame
      simp [h]
      omega
    · simp [hSame]
      omega

theorem pendingNeeds_eq_zero_iff {jobs : JobsConfig} {sorted : List String} {job : String} :
    pendingNeeds jobs sorted job = 0 ↔ ∀ dep, Needs jobs job dep → dep ∈ sorted := by
  simp [pendingNeeds, List.countP_eq_zero, Needs]

structure KahnState.Inv (jobs : JobsConfig) (st : KahnState) : Prop where
  nodup : (st.sortedJobs ++ st.queue).Nodup
  subset : st.sortedJobs ++ st.queue ⊆ jobs.keys
  degree : ∀ job ∈ jobs.keys, st.degree job = pendingNeeds jobs st.sortedJobs job
  ready : ∀ job ∈ jobs.keys, job ∈ st.sortedJobs ++ st.queue ↔ st.degree job = 0
  ordered : Ordered jobs st.sortedJobs

variable {jobs : JobsConfig} {graph : Graph}

/-- The state once the first job of the queue is sorted, before its dependents are released. -/
def KahnState.popped (st : KahnState) (job : String) (queue : List String) : KahnState :=
  { st with queue, sortedJobs := st.sortedJobs ++ [job] }

@[simp] theorem popped_degree (st : KahnState) (job other : String) (queue : List String) :
    (st.popped job queue).degree other = st.degree other := rfl

@[simp] theorem popped_queue (st : KahnState) (job : String) (queue : List String) :
    (st.popped job queue).queue = queue := rfl

@[simp] theorem popped_sortedJobs (st : KahnState) (job : String) (queue : List String) :
    (st.popped job queue).sortedJobs = st.sortedJobs ++ [job] := rfl

theorem KahnState.Inv.pop (hGraph : Graph.Of jobs graph) {st : KahnState} (h : st.Inv jobs)
    {job : String} {queue : List String} (hQueue : st.queue = job :: queue) :
    KahnState.Inv jobs ((graph.dependents job).foldl release (st.popped job queue)) := by
  have hSplit : st.sortedJobs ++ [job] ++ queue = st.sortedJobs ++ st.queue := by
    rw [hQueue, List.append_assoc, List.singleton_append]
  have hNodup := h.nodup
  rw [← hSplit] at hNodup
  have hJob : job ∈ jobs.keys := h.subset (by simp [hQueue])
  have hFresh : job ∉ st.sortedJobs := by
    intro hMem
    exact List.disjoint_of_nodup_append (List.nodup_append.mp hNodup).1 hMem (by simp)
  have hPending : ∀ other ∈ jobs.keys, st.degree other =
      pendingNeeds jobs (st.sortedJobs ++ [job]) other + (graph.dependents job).count other := by
    intro other hOther
    rw [h.degree other hOther, hGraph.count_dependents job hJob, pendingNeeds,
      countP_notMem_append _ _ hFresh]
    simp [pendingNeeds]
  have hNeeds : ∀ dep, Needs jobs job dep → dep ∈ st.sortedJobs := by
    rw [← pendingNeeds_eq_zero_iff]
    have hZero := (h.ready job hJob).mp (by simp [hQueue])
    rw [h.degree job hJob] at hZero
    omega
  have hEnough : ∀ other ∈ graph.dependents job,
      ((graph.dependents job).count other : Int) ≤ (st.popped job queue).degree other := by
    intro other hOther
    rw [popped_degree, hPending other (hGraph.dependents_subset hJob hOther)]
    omega
  obtain ⟨hDegree, released, hReleasedQueue, hReleasedNodup, hReleased⟩ :=
    foldl_release (graph.dependents job) (st.popped job queue) hEnough
  have hReleasedKeys : ∀ other ∈ released, other ∈ jobs.keys := fun other hOther =>
    hGraph.dependents_subset hJob ((hReleased other).mp hOther).1
  constructor
  · rw [foldl_release_sortedJobs, hReleasedQueue, ← List.append_assoc]
    refine hNodup.append hReleasedNodup ?_
    intro other hMem hMemReleased
    -- a released job had needs left, so it was neither sorted nor queued
    obtain ⟨hDependent, hCount⟩ := (hReleased other).mp hMemReleased
    have hZero := (h.ready other (hReleasedKeys other hMemReleased)).mp (hSplit ▸ hMem)
    have := List.count_pos_iff.mpr hDependent
    rw [popped_degree, hZero] at hCount
    omega
  · rw [foldl_release_sortedJobs, hReleasedQueue, ← List.append_assoc, popped_sortedJobs,
      popped_queue, hSplit]
    exact List.append_subset.mpr ⟨h.subset, hReleasedKeys⟩
  · intro other hOther
    rw [hDegree, popped_degree, hPending other hOther, foldl_release_sortedJobs, popped_sortedJobs]
    omega
  · intro other hOther
    rw [foldl_release_sortedJobs, hReleasedQueue, ← List.append_assoc, popped_sortedJobs,
      popped_queue, hSplit, List.mem_append, h.ready other hOther, hReleased, hDegree, popped_degree]
    have hSum := hPending other hOther
    constructor
    · rintro (hZero | ⟨-, hCount⟩)
      · omega
      · omega
    · intro hZero
      by_cases hNow : st.degree other = 0
      · exact .inl hNow
      · exact .inr ⟨List.count_pos_iff.mp (by omega), by omega⟩
  · rw [foldl_release_sortedJobs]
    exact h.ordered.append hNeeds

theorem kahn_of_nil {fuel : Nat} {st : KahnState} (h : st.queue = []) :
    kahn graph fuel st = .ok st.sortedJobs := by
  cases fuel <;> simp only [kahn, h]

theorem kahn_of_cons {fuel : Nat} {st : KahnState} {job : String} {queue : List String}
    (h : st.queue = job :: queue) : kahn graph (fuel + 1) st =
      kahn graph fuel ((graph.dependents job).foldl release (st.popped job queue)) := by
  rw [kahn, h]
  rfl

theorem kahn_inv (hGraph : Graph.Of jobs graph) (fuel : Nat) (st : KahnState) (h : st.Inv jobs)
    (hFuel : jobs.keys.length ≤ fuel + st.sortedJobs.length) :
    ∃ st' : KahnState, kahn graph fuel st = .ok st'.sortedJobs ∧ st'.queue = [] ∧ st'.Inv jobs := by
  induction fuel generalizing st with
  | zero =>
    have hLength := (h.nodup.subperm h.subset).length_le
    rw [List.length_append] at hLength
    have hQueue : st.queue = [] := List.eq_nil_of_length_eq_zero (by omega)
    exact ⟨st, kahn_of_nil hQueue, hQueue, h⟩
  | succ fuel ih =>
    cases hQueue : st.queue with
    | nil => exact ⟨st, kahn_of_nil hQueue, hQueue, h⟩
    | cons job queue =>
      rw [kahn_of_cons hQueue]
      apply ih _ (h.pop hGraph hQueue)
      rw [foldl_release_sortedJobs, popped_sortedJobs, List.length_append, List.length_singleton]
      omega

/-! ## The whole sort -/

theorem inDegrees_getD (hGraph : Graph.Of jobs graph) (job : String) (hJob : job ∈ jobs.keys) :
    (inDegrees graph).getD job 0 = (needsOf jobs job).length := by
  rw [← hGraph.keys] at hJob
  obtain ⟨node, hNode⟩ := Dict.mem_keys_iff.mp hJob
  have hEntries : (inDegrees graph).entries =
      graph.entries.map fun entry => (entry.1, (entry.2.needs.length : Int)) := by
    apply Dict.entries_ofList
    simpa [Function.comp_def] using graph.nodup
  have hGet : (inDegrees graph).get? job = some (node.needs.length : Int) := by
    rw [Dict.get?_eq_some_iff, hEntries]
    exact List.mem_map.mpr ⟨(job, node), Dict.get?_eq_some_iff.mp hNode, rfl⟩
  rw [Dict.getD, hGet, ← hGraph.needs job, Graph.needs, hNode]
  rfl

theorem initial_inv (hGraph : Graph.Of jobs graph) :
    KahnState.Inv jobs ⟨inDegrees graph,
      graph.keys.filter fun job => (inDegrees graph).getD job 0 = 0, []⟩ := by
  constructor
  · rw [List.nil_append]
    exact graph.nodup.filter _
  · rw [List.nil_append, hGraph.keys]
    exact List.filter_subset_self _
  · intro job hJob
    rw [KahnState.degree, inDegrees_getD hGraph job hJob]
    simp [pendingNeeds]
  · intro job hJob
    simp [KahnState.degree, hGraph.keys, hJob]
  · intro pre job post hSplit
    simp at hSplit

theorem topologicalSort_ok (hGraph : Graph.Of jobs graph) (hKnown : NeedsKnown jobs)
    (hAcyclic : Acyclic (Needs jobs)) :
    ∃ sorted, topologicalSort graph = .ok sorted ∧ sorted.Perm jobs.keys ∧ Ordered jobs sorted := by
  obtain ⟨st, hKahn, hDone, hInv⟩ := kahn_inv hGraph graph.keys.length _ (initial_inv hGraph)
    (by simp [hGraph.keys])
  have hNodup := hInv.nodup
  have hSubset := hInv.subset
  rw [hDone, List.append_nil] at hNodup hSubset
  have hAll : ∀ job ∈ jobs.keys, job ∈ st.sortedJobs := by
    apply hAcyclic.induction_on
    · exact fun job _ dep hNeeds => hKnown job dep hNeeds
    · intro job hJob hDeps
      have hReady := hInv.ready job hJob
      rw [hDone, List.append_nil, hInv.degree job hJob] at hReady
      rw [hReady, Int.natCast_eq_zero, pendingNeeds_eq_zero_iff]
      exact hDeps
  have hPerm : st.sortedJobs.Perm jobs.keys :=
    (hNodup.subperm hSubset).antisymm (List.Nodup.subperm jobs.nodup hAll)
  refine ⟨st.sortedJobs, ?_, hPerm, hInv.ordered⟩
  have hLength : st.sortedJobs.length = graph.keys.length := by
    rw [hPerm.length_eq, hGraph.keys]
  simp only [topologicalSort, hKahn, Except.bind, hLength, ne_eq, not_true_eq_false, if_false]

/-- What the constructor of the scheduler establishes. -/
structure DAGScheduler.Built (jobs : JobsConfig) (s : DAGScheduler) : Prop where
  graph : Graph.Of jobs s.graph
  perm : s.sortedJobs.Perm jobs.keys
  ordered : Ordered jobs s.sortedJobs

theorem DAGScheduler.new_ok (hKnown : NeedsKnown jobs) (hAcyclic : Acyclic (Needs jobs)) :
    ∃ s, DAGScheduler.new jobs = .ok s ∧ s.Built jobs ∧
      s.jobStatuses.entries = jobs.keys.map fun job => (job, .queued) := by
  obtain ⟨nodes, hBuild, hEntries⟩ := buildGraph_ok hKnown
  have hGraph := computeDependents_of hEntries
  obtain ⟨sorted, hSort, hPerm, hOrdered⟩ := topologicalSort_ok hGraph hKnown hAcyclic
  refine ⟨⟨computeDependents nodes, sorted, .ofList ((computeDependents nodes).keys.map
    fun job => (job, .queued))⟩, ?_, ⟨hGraph, hPerm, hOrdered⟩, ?_⟩
  · simp only [new, hBuild, bind, Except.bind, detectCycles_ok hGraph hKnown hAcyclic, hSort]
  · rw [← hGraph.keys]
    apply Dict.entries_ofList
    rw [List.map_map]
    exact (List.map_id _).symm ▸ (computeDependents nodes).nodup

/-! ## Only acyclic graphs are sorted -/

theorem Ordered.idxOf_lt {sorted : List String} (h : Ordered jobs sorted) {job dep : String}
    (hJob : job ∈ sorted) (hNeeds : Needs jobs job dep) : sorted.idxOf dep < sorted.idxOf job :=
  Topological.idxOf_lt h hJob hNeeds

theorem Ordered.acyclic {sorted : List String} (h : Ordered jobs sorted)
    (hAll : ∀ job ∈ jobs.keys, job ∈ sorted) : Acyclic (Needs jobs) :=
  Topological.acyclic h fun _ _ hNeeds => hAll _ hNeeds.mem_keys

theorem topologicalSort_acyclic (hGraph : Graph.Of jobs graph) {sorted : List String}
    (h : topologicalSort graph = .ok sorted) : Acyclic (Needs jobs) := by
  obtain ⟨st, hKahn, hDone, hInv⟩ := kahn_inv hGraph graph.keys.length _ (initial_inv hGraph)
    (by simp [hGraph.keys])
  have hNodup := hInv.nodup
  have hSubset := hInv.subset
  rw [hDone, List.append_nil] at hNodup hSubset
  simp only [topologicalSort, hKahn, Except.bind] at h
  split at h
  · cases h
  · rename_i hLength
    have hPerm : st.sortedJobs.Perm jobs.keys := by
      apply (hNodup.subperm hSubset).perm_of_length_le
      rw [← hGraph.keys]
      omega
    exact hInv.ordered.acyclic fun job hJob => hPerm.mem_iff.mpr hJob

theorem DAGScheduler.new_acyclic (hKnown : NeedsKnown jobs) {s : DAGScheduler}
    (h : DAGScheduler.new jobs = .ok s) : Acyclic (Needs jobs) := by
  obtain ⟨nodes, hBuild, hEntries⟩ := buildGraph_ok hKnown
  simp only [new, hBuild, bind, Except.bind] at h
  split at h
  · cases h
  · split at h
    · cases h
    · rename_i sorted hSort
      exact topologicalSort_acyclic (computeDependents_of hEntries) hSort

end Forge.Engine
