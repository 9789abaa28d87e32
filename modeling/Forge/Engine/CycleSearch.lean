import Forge.Engine.TopologicalSort

/-! # Cycle detection on every graph

The path of the search is a chain of needs, so whatever it reports is a cycle. A need that is not yet
visited when its job is left lies on the path, and there it closes a reported cycle: without those
needs the visited jobs are in topological order.
-/
namespace Forge.Engine
open Forge.Python Forge.Theory
set_option autoImplicit false

/-- A cycle as the detector prints it, its first job again at the end. -/
def cycleText (cycle : List String) : String :=
  " → ".intercalate (cycle ++ cycle.head?.toList)

/-- The need leads from the last job of one of the cycles back to its first. -/
def Closes (cycles : List (List String)) (job dep : String) : Prop :=
  ∃ cycle ∈ cycles, cycle.getLast? = some job ∧ cycle.head? = some dep

theorem Closes.mono {cycles cycles' : List (List String)} {job dep : String}
    (h : Closes cycles job dep) (hSubset : cycles ⊆ cycles') : Closes cycles' job dep := by
  obtain ⟨cycle, hMem, hEnds⟩ := h
  exact ⟨cycle, hSubset hMem, hEnds⟩

/-- The needs that close none of the cycles. -/
def OpenNeeds (jobs : JobsConfig) (cycles : List (List String)) (job dep : String) : Prop :=
  Needs jobs job dep ∧ ¬ Closes cycles job dep

/-- The state of a search that stands at the end of `path` and has reported `cycles`. -/
structure DfsState.At (jobs : JobsConfig) (path : List String) (cycles : List (List String))
    (st : DfsState) : Prop where
  visiting : st.visiting = path.reverse
  nodup : path.Nodup
  chain : path.IsChain (Needs jobs)
  subset : path ⊆ jobs.keys
  unvisited : ∀ job ∈ path, job ∉ st.visited
  reported : st.cyclesFound = cycles.map cycleText
  real : ∀ cycle ∈ cycles, IsCycle (Needs jobs) cycle
  settled : Topological (OpenNeeds jobs cycles) st.visited.reverse

/-- What a search through `deps` from the end of `path` makes of a state. -/
structure Searched (jobs : JobsConfig) (path deps : List String) (cycles cycles' : List (List String))
    (st st' : DfsState) : Prop where
  stands : st'.At jobs path cycles'
  visited : st.visited ⊆ st'.visited
  reported : cycles ⊆ cycles'
  met : ∀ dep ∈ deps, dep ∈ st'.visited ∨ ∃ job, path.getLast? = some job ∧ Closes cycles' job dep

variable {jobs : JobsConfig} {graph : Graph}

theorem DfsState.At.length_le {path : List String} {cycles : List (List String)} {st : DfsState}
    (h : st.At jobs path cycles) : path.length ≤ jobs.keys.length :=
  (h.nodup.subperm h.subset).length_le

theorem Searched.refl {path : List String} {cycles : List (List String)} {st : DfsState}
    (h : st.At jobs path cycles) : Searched jobs path [] cycles cycles st st :=
  ⟨h, fun _ hMem => hMem, fun _ hMem => hMem, by simp⟩

theorem Searched.trans {path deps deps' : List String} {a b c : List (List String)}
    {st st₁ st₂ : DfsState} (h : Searched jobs path deps a b st st₁)
    (h' : Searched jobs path deps' b c st₁ st₂) : Searched jobs path (deps ++ deps') a c st st₂ := by
  refine ⟨h'.stands, List.Subset.trans h.visited h'.visited,
    List.Subset.trans h.reported h'.reported, ?_⟩
  intro dep hDep
  cases List.mem_append.mp hDep with
  | inr hLater => exact h'.met dep hLater
  | inl hEarlier =>
    cases h.met dep hEarlier with
    | inl hVisited => exact .inl (h'.visited hVisited)
    | inr hCloses =>
      obtain ⟨job, hLast, hCloses⟩ := hCloses
      exact .inr ⟨job, hLast, hCloses.mono h'.reported⟩

theorem dfsEach_searched {search : String → DfsState → Except SchedulerExc DfsState}
    {path : List String} (deps : List String)
    (hSearch : ∀ dep ∈ deps, ∀ cycles st, DfsState.At jobs path cycles st →
      ∃ st' cycles', search dep st = .ok st' ∧ Searched jobs path [dep] cycles cycles' st st')
    (cycles : List (List String)) (st : DfsState) (h : st.At jobs path cycles) :
    ∃ st' cycles', dfsEach search deps st = .ok st' ∧
      Searched jobs path deps cycles cycles' st st' := by
  induction deps generalizing cycles st with
  | nil => exact ⟨st, cycles, rfl, .refl h⟩
  | cons dep rest ih =>
    obtain ⟨st₁, cycles₁, hFirst, hSearched₁⟩ := hSearch dep List.mem_cons_self cycles st h
    obtain ⟨st₂, cycles₂, hRest, hSearched₂⟩ :=
      ih (fun d hd => hSearch d (List.mem_cons_of_mem _ hd)) cycles₁ st₁ hSearched₁.stands
    refine ⟨st₂, cycles₂, ?_, hSearched₁.trans hSearched₂⟩
    rw [dfsEach, hFirst]
    exact hRest

/-! ## Meeting the path, entering a job, leaving it -/

variable {path : List String} {cycles : List (List String)} {st : DfsState} {node : String}

/-- A job met again on the path: the path from there on is a cycle. -/
theorem DfsState.At.report (h : st.At jobs path cycles) (hNode : node ∈ path)
    (hLast : ∀ job, path.getLast? = some job → Needs jobs job node) :
    Searched jobs path [node] cycles (cycles ++ [path.drop (path.idxOf node)]) st
      { st with cyclesFound := st.cyclesFound ++ [" → ".intercalate (path.drop (path.idxOf node) ++ [node])] } := by
  have hIdx : path.idxOf node < path.length := List.idxOf_lt_length_of_mem hNode
  have hHead : (path.drop (path.idxOf node)).head? = some node := by
    rw [List.head?_drop, List.getElem?_eq_getElem hIdx, List.getElem_idxOf hIdx]
  have hNe : path ≠ [] := List.ne_nil_of_mem hNode
  have hGetLast := List.getLast?_eq_getLast_of_ne_nil hNe
  have hCycle := IsCycle.of_chain h.nodup h.chain hNode hGetLast (hLast _ hGetLast)
  have hMore : cycles ⊆ cycles ++ [path.drop (path.idxOf node)] := List.subset_append_left _ _
  refine ⟨?_, fun _ hMem => hMem, hMore, ?_⟩
  · refine { h with reported := ?_, real := ?_, settled := ?_ }
    · simp [h.reported, cycleText, hHead]
    · intro cycle hMem
      cases List.mem_append.mp hMem with
      | inl hOld => exact h.real cycle hOld
      | inr hNew => exact List.mem_singleton.mp hNew ▸ hCycle
    · exact h.settled.mono fun _ _ hOpen => ⟨hOpen.1, fun hCloses => hOpen.2 (hCloses.mono hMore)⟩
  · intro dep hDep
    cases List.mem_singleton.mp hDep
    refine .inr ⟨_, hGetLast, path.drop (path.idxOf node), by simp, ?_, hHead⟩
    rw [List.getLast?_drop, if_neg (by omega), hGetLast]

theorem DfsState.At.enter (h : st.At jobs path cycles) (hNode : node ∈ jobs.keys)
    (hLast : ∀ job, path.getLast? = some job → Needs jobs job node) (hFresh : node ∉ path)
    (hUnvisited : node ∉ st.visited) :
    DfsState.At jobs (path ++ [node]) cycles { st with visiting := node :: st.visiting } := by
  refine { h with visiting := ?_, nodup := ?_, chain := ?_, subset := ?_, unvisited := ?_ }
  · simp [h.visiting]
  · exact h.nodup.append (List.nodup_singleton node) (List.disjoint_singleton.mpr hFresh)
  · rw [List.isChain_append]
    refine ⟨h.chain, List.isChain_singleton node, ?_⟩
    intro job hJob other hOther
    cases hOther
    exact hLast job hJob
  · exact List.append_subset.mpr ⟨h.subset, by simpa using hNode⟩
  · intro job hJob
    cases List.mem_append.mp hJob with
    | inl hMem => exact h.unvisited job hMem
    | inr hMem => exact List.mem_singleton.mp hMem ▸ hUnvisited

theorem DfsState.At.leave {cycles' : List (List String)} {st' : DfsState} {needs : List String}
    (h : st.At jobs path cycles) (hNeeds : ∀ dep, Needs jobs node dep → dep ∈ needs)
    (hSearched : Searched jobs (path ++ [node]) needs cycles cycles'
      { st with visiting := node :: st.visiting } st') :
    Searched jobs path [node] cycles cycles' st
      { st' with visiting := st'.visiting.erase node, visited := node :: st'.visited } := by
  obtain ⟨hStands, hVisited, hReported, hMet⟩ := hSearched
  refine ⟨?_, ?_, hReported, ?_⟩
  · refine ⟨?_, h.nodup, h.chain, h.subset, ?_, hStands.reported, hStands.real, ?_⟩
    · simp [hStands.visiting]
    · intro job hJob hMem
      have hNe : job ≠ node := by
        rintro rfl
        exact List.disjoint_of_nodup_append hStands.nodup hJob (by simp)
      exact hStands.unvisited job (by simp [hJob]) (by simpa [hNe] using hMem)
    · rw [List.reverse_cons]
      apply hStands.settled.append
      intro dep hOpen
      cases hMet dep (hNeeds dep hOpen.1) with
      | inl hMem => exact List.mem_reverse.mpr hMem
      | inr hCloses =>
        obtain ⟨job, hJob, hCloses⟩ := hCloses
        rw [List.getLast?_concat] at hJob
        cases hJob
        exact absurd hCloses hOpen.2
  · exact List.Subset.trans hVisited (List.subset_cons_self _ _)
  · simp

/-! ## The search -/

theorem idxOf?_of_mem {path : List String} {node : String} (h : node ∈ path) :
    path.idxOf? node = some (path.idxOf node) := by
  cases hIdx : path.idxOf? node with
  | none => exact absurd h (List.idxOf?_eq_none_iff.mp hIdx)
  | some i => rw [List.idxOf_eq_getD_idxOf?, hIdx, Option.getD_some]

theorem dfs_searched (hGraph : Graph.Of jobs graph) (hKnown : NeedsKnown jobs) (fuel : Nat)
    (path : List String) (node : String) (cycles : List (List String)) (st : DfsState)
    (h : st.At jobs path cycles) (hNode : node ∈ jobs.keys)
    (hLast : ∀ job, path.getLast? = some job → Needs jobs job node)
    (hFuel : jobs.keys.length < fuel + path.length) :
    ∃ st' cycles', dfs graph fuel path node st = .ok st' ∧
      Searched jobs path [node] cycles cycles' st st' := by
  induction fuel generalizing path node cycles st with
  | zero =>
    have := h.length_le
    omega
  | succ fuel ih =>
    have hPath : node ∈ st.visiting ↔ node ∈ path := by rw [h.visiting, List.mem_reverse]
    rw [dfs]
    split
    · rename_i hMem
      rw [hPath] at hMem
      rw [idxOf?_of_mem hMem]
      exact ⟨_, _, rfl, h.report hMem hLast⟩
    · rename_i hFresh
      rw [hPath] at hFresh
      split
      · rename_i hVisited
        exact ⟨st, cycles, rfl, h, fun _ hMem => hMem, fun _ hMem => hMem, by simp [hVisited]⟩
      · rename_i hUnvisited
        have hEntered := h.enter hNode hLast hFresh hUnvisited
        have hSearch : ∀ dep ∈ graph.needs node, ∀ cycles₁ st₁,
            DfsState.At jobs (path ++ [node]) cycles₁ st₁ →
            ∃ st₂ cycles₂, dfs graph fuel (path ++ [node]) dep st₁ = .ok st₂ ∧
              Searched jobs (path ++ [node]) [dep] cycles₁ cycles₂ st₁ st₂ := by
          intro dep hDep cycles₁ st₁ h₁
          have hNeeds := hGraph.mem_needs.mp hDep
          apply ih (path ++ [node]) dep cycles₁ st₁ h₁ (hKnown node dep hNeeds)
          · intro job hJob
            rw [List.getLast?_concat] at hJob
            cases hJob
            exact hNeeds
          · rw [List.length_append, List.length_singleton]
            omega
        obtain ⟨st', cycles', hEach, hSearched⟩ :=
          dfsEach_searched (graph.needs node) hSearch cycles _ hEntered
        refine ⟨_, cycles', ?_, h.leave (fun dep hNeeds => hGraph.mem_needs.mpr hNeeds) hSearched⟩
        simp only [hEach, Except.map]

theorem dfsRoots_searched (hGraph : Graph.Of jobs graph) (hKnown : NeedsKnown jobs)
    (roots : List String) (hRoots : roots ⊆ jobs.keys) (cycles : List (List String)) (st : DfsState)
    (h : st.At jobs [] cycles) :
    ∃ st' cycles', dfsRoots graph (graph.keys.length + 1) roots st = .ok st' ∧
      Searched jobs [] roots cycles cycles' st st' := by
  induction roots generalizing cycles st with
  | nil => exact ⟨st, cycles, rfl, .refl h⟩
  | cons job rest ih =>
    obtain ⟨hJob, hRest⟩ := List.cons_subset.mp hRoots
    rw [dfsRoots]
    split
    · rename_i hVisited
      have hSkip : Searched jobs [] [job] cycles cycles st st :=
        ⟨h, fun _ hMem => hMem, fun _ hMem => hMem, by simp [hVisited]⟩
      obtain ⟨st', cycles', hRoots', hSearched⟩ := ih hRest cycles st h
      exact ⟨st', cycles', hRoots', hSkip.trans hSearched⟩
    · obtain ⟨st₁, cycles₁, hFirst, hSearched₁⟩ := dfs_searched hGraph hKnown
        (graph.keys.length + 1) [] job cycles st h hJob (by simp) (by simp [hGraph.keys])
      obtain ⟨st₂, cycles₂, hSecond, hSearched₂⟩ := ih hRest cycles₁ st₁ hSearched₁.stands
      refine ⟨st₂, cycles₂, ?_, hSearched₁.trans hSearched₂⟩
      rw [hFirst]
      exact hSecond

/-! ## The two algorithms of the constructor -/

/-- The detector's answer on a graph of needs, and what Kahn's algorithm says of the same graph. -/
structure Detects (jobs : JobsConfig) (graph : Graph) (cycles : List (List String)) : Prop where
  /-- The search returns, so no look-up in the path fails. -/
  reported : ∃ st, dfsRoots graph (graph.keys.length + 1) graph.keys {} = .ok st ∧
    st.cyclesFound = cycles.map cycleText
  real : ∀ cycle ∈ cycles, IsCycle (Needs jobs) cycle
  /-- Every cycle of needs goes through a need that closes a reported one. -/
  complete : Acyclic (OpenNeeds jobs cycles)
  kahn : (∃ sorted, topologicalSort graph = .ok sorted) ↔ cycles = []

theorem acyclic_iff_of_complete {cycles : List (List String)}
    (hReal : ∀ cycle ∈ cycles, IsCycle (Needs jobs) cycle)
    (hComplete : Acyclic (OpenNeeds jobs cycles)) : Acyclic (Needs jobs) ↔ cycles = [] := by
  constructor
  · intro hAcyclic
    cases cycles with
    | nil => rfl
    | cons cycle rest => exact absurd hAcyclic (hReal cycle List.mem_cons_self).not_acyclic
  · rintro rfl
    have hEq : OpenNeeds jobs [] = Needs jobs := by
      funext job dep
      simp [OpenNeeds, Closes]
    rwa [hEq] at hComplete

theorem exists_detects (hGraph : Graph.Of jobs graph) (hKnown : NeedsKnown jobs) :
    ∃ cycles, Detects jobs graph cycles := by
  have hStart : DfsState.At jobs [] [] {} :=
    ⟨rfl, List.nodup_nil, List.isChain_nil, List.nil_subset _, by simp, rfl, by simp, .nil _⟩
  obtain ⟨st, cycles, hRoots, hSearched⟩ := dfsRoots_searched hGraph hKnown graph.keys
    (by rw [hGraph.keys]; exact List.Subset.refl _) [] {} hStart
  have hComplete : Acyclic (OpenNeeds jobs cycles) := by
    apply hSearched.stands.settled.acyclic
    intro job dep hOpen
    have hJob : job ∈ graph.keys := hGraph.keys ▸ hOpen.1.mem_keys
    cases hSearched.met job hJob with
    | inl hVisited => exact List.mem_reverse.mpr hVisited
    | inr hCloses =>
      obtain ⟨_, hLast, -⟩ := hCloses
      cases hLast
  have hAcyclic := acyclic_iff_of_complete hSearched.stands.real hComplete
  refine ⟨cycles, ⟨st, hRoots, hSearched.stands.reported⟩, hSearched.stands.real, hComplete, ?_⟩
  rw [← hAcyclic]
  constructor
  · rintro ⟨sorted, hSort⟩
    exact topologicalSort_acyclic hGraph hSort
  · intro h
    obtain ⟨sorted, hSort, -⟩ := topologicalSort_ok hGraph hKnown h
    exact ⟨sorted, hSort⟩

def cyclesDetected (cycles : List (List String)) : SchedulerExc :=
  .valueError ("Dependency cycles detected: " ++ ", ".intercalate (cycles.map cycleText))

theorem Detects.new_eq {nodes : Graph} {cycles : List (List String)}
    (hBuild : buildGraph jobs = .ok nodes) (h : Detects jobs (computeDependents nodes) cycles) :
    (cycles = [] ∧ ∃ s, DAGScheduler.new jobs = .ok s) ∨
      (cycles ≠ [] ∧ DAGScheduler.new jobs = .error (cyclesDetected cycles)) := by
  obtain ⟨st, hRoots, hReported⟩ := h.reported
  have hDetect : detectCycles (computeDependents nodes) =
      if cycles = [] then .ok () else .error (cyclesDetected cycles) := by
    simp only [detectCycles, hRoots, Except.bind, hReported, List.map_eq_nil_iff, cyclesDetected]
  simp only [DAGScheduler.new, hBuild, bind, Except.bind, hDetect]
  by_cases hNil : cycles = []
  · obtain ⟨sorted, hSort⟩ := h.kahn.mpr hNil
    refine .inl ⟨hNil, ?_⟩
    simp only [if_pos hNil, hSort]
    exact ⟨_, rfl⟩
  · refine .inr ⟨hNil, ?_⟩
    simp only [if_neg hNil]

theorem cyclesDetected_ne (cycles : List (List String)) :
    cyclesDetected cycles ≠
      .valueError "Cycle detected in DAG (should have been caught earlier)" := by
  intro h
  injection h with hText
  have hHead := congrArg (fun text => text.toList.head?) hText
  simp at hHead

theorem DAGScheduler.new_valueError_iff_cycle (hKnown : NeedsKnown jobs) :
    ((∃ message, DAGScheduler.new jobs = .error (.valueError message)) ↔
        ∃ cycle, IsCycle (Needs jobs) cycle) ∧
      (∃ nodes cycles, buildGraph jobs = .ok nodes ∧
        Detects jobs (computeDependents nodes) cycles ∧
        ((cycles = [] ∧ ∃ s, DAGScheduler.new jobs = .ok s) ∨
          (cycles ≠ [] ∧ DAGScheduler.new jobs = .error (cyclesDetected cycles)))) ∧
      DAGScheduler.new jobs ≠
        .error (.valueError "Cycle detected in DAG (should have been caught earlier)") := by
  obtain ⟨nodes, hBuild, hEntries⟩ := buildGraph_ok hKnown
  obtain ⟨cycles, hDetects⟩ := exists_detects (computeDependents_of hEntries) hKnown
  have hNew := hDetects.new_eq hBuild
  refine ⟨?_, ⟨nodes, cycles, hBuild, hDetects, hNew⟩, ?_⟩
  · cases hNew with
    | inl hNone =>
      obtain ⟨hNil, s, hNew⟩ := hNone
      have hAcyclic := (acyclic_iff_of_complete hDetects.real hDetects.complete).mpr hNil
      constructor
      · rintro ⟨message, hError⟩
        cases hNew.symm.trans hError
      · rintro ⟨cycle, hCycle⟩
        exact absurd hAcyclic hCycle.not_acyclic
    | inr hSome =>
      obtain ⟨hNe, hNew⟩ := hSome
      obtain ⟨cycle, hMem⟩ := List.exists_mem_of_ne_nil cycles hNe
      exact ⟨fun _ => ⟨cycle, hDetects.real cycle hMem⟩, fun _ => ⟨_, hNew⟩⟩
  · intro hError
    cases hNew with
    | inl hNone =>
      obtain ⟨-, s, hNew⟩ := hNone
      cases hNew.symm.trans hError
    | inr hSome =>
      injection hSome.2.symm.trans hError with hExc
      exact cyclesDetected_ne cycles hExc

/-- `a` needs itself and `b` twice, `b` needs `a`, and `c` stands beside the cycles. -/
def tangledJobs : JobsConfig :=
  .ofList [("a", { needs := ["a", "b", "b"] }), ("b", { needs := ["a"] }), ("c", { needs := ["b"] })]

theorem tangledJobs_detected :
    (∃ message, DAGScheduler.new tangledJobs = .error (.valueError message)) ∧
      ∃ cycle, IsCycle (Needs tangledJobs) cycle := by
  have hKnown : NeedsKnown tangledJobs := by
    intro job dep hNeeds
    have hJob : job ∈ ["a", "b", "c"] := hNeeds.mem_keys
    have hAll : ∀ job ∈ ["a", "b", "c"], ∀ dep ∈ needsOf tangledJobs job,
        dep ∈ tangledJobs.keys := by decide
    exact hAll job hJob dep hNeeds
  have hRaised : ∃ message, DAGScheduler.new tangledJobs = .error (.valueError message) :=
    ⟨"Dependency cycles detected: a → a, a → b → a", by rfl⟩
  exact ⟨hRaised, (DAGScheduler.new_valueError_iff_cycle hKnown).1.mp hRaised⟩

end Forge.Engine
