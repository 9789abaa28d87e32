import Forge.Engine.Graph

/-! # Cycle detection on acyclic graphs

The path of the search is a chain of needs, so it can meet a node that is being visited only on a
cycle; and it repeats no job, so it is never longer than there are jobs.
-/
namespace Forge.Engine
open Forge.Python Forge.Theory Relation
set_option autoImplicit false

/-- The search leaves no trace but in the visited jobs. -/
structure DfsState.Quiet (st st' : DfsState) : Prop where
  visiting : st'.visiting = st.visiting
  cyclesFound : st'.cyclesFound = st.cyclesFound

theorem DfsState.Quiet.refl (st : DfsState) : st.Quiet st := ⟨rfl, rfl⟩

theorem DfsState.Quiet.trans {a b c : DfsState} (h : a.Quiet b) (h' : b.Quiet c) : a.Quiet c :=
  ⟨h'.visiting.trans h.visiting, h'.cyclesFound.trans h.cyclesFound⟩

theorem dfsEach_quiet {search : String → DfsState → Except SchedulerExc DfsState}
    {visiting : List String} (deps : List String)
    (hSearch : ∀ dep ∈ deps, ∀ st : DfsState, st.visiting = visiting →
      ∃ st', search dep st = .ok st' ∧ st.Quiet st') (st : DfsState) (hVisiting : st.visiting = visiting) :
    ∃ st', dfsEach search deps st = .ok st' ∧ st.Quiet st' := by
  induction deps generalizing st with
  | nil => exact ⟨st, rfl, .refl st⟩
  | cons dep rest ih =>
    obtain ⟨st₁, hFirst, hQuiet₁⟩ := hSearch dep List.mem_cons_self st hVisiting
    obtain ⟨st₂, hRest, hQuiet₂⟩ := ih (fun d hd => hSearch d (List.mem_cons_of_mem _ hd)) st₁
      (hQuiet₁.visiting.trans hVisiting)
    refine ⟨st₂, ?_, hQuiet₁.trans hQuiet₂⟩
    rw [dfsEach, hFirst]
    exact hRest

variable {jobs : JobsConfig} {graph : Graph}

theorem dfs_quiet (hGraph : Graph.Of jobs graph) (hKnown : NeedsKnown jobs)
    (hAcyclic : Acyclic (Needs jobs)) (fuel : Nat) (path : List String) (node : String) (st : DfsState)
    (hPath : ∀ p ∈ path, TransGen (Needs jobs) p node) (hNodup : path.Nodup)
    (hSubset : path ⊆ jobs.keys) (hNode : node ∈ jobs.keys) (hVisiting : st.visiting ⊆ path)
    (hFuel : jobs.keys.length < fuel + path.length) :
    ∃ st', dfs graph fuel path node st = .ok st' ∧ st.Quiet st' := by
  induction fuel generalizing path node st with
  | zero =>
    have := (hNodup.subperm hSubset).length_le
    omega
  | succ fuel ih =>
    have hFresh : node ∉ path := fun hMem => hAcyclic node (hPath node hMem)
    rw [dfs, if_neg fun hMem => hFresh (hVisiting hMem)]
    split
    · exact ⟨st, rfl, .refl st⟩
    · have hSearch : ∀ dep ∈ graph.needs node, ∀ st₁ : DfsState, st₁.visiting = node :: st.visiting →
          ∃ st₂, dfs graph fuel (path ++ [node]) dep st₁ = .ok st₂ ∧ st₁.Quiet st₂ := by
        intro dep hDep st₁ hVisiting₁
        have hNeeds := hGraph.mem_needs.mp hDep
        apply ih
        · intro p hp
          rcases List.mem_append.mp hp with hp | hp
          · exact (hPath p hp).tail hNeeds
          · cases List.mem_singleton.mp hp
            exact .single hNeeds
        · exact hNodup.append (List.nodup_singleton node) (List.disjoint_singleton.mpr hFresh)
        · simpa [hNode] using hSubset
        · exact hKnown node dep hNeeds
        · rw [hVisiting₁]
          exact List.cons_subset.mpr ⟨by simp, List.Subset.trans hVisiting (by simp)⟩
        · simp only [List.length_append, List.length_singleton]
          omega
      obtain ⟨st', hEach, hQuiet⟩ := dfsEach_quiet (graph.needs node) hSearch
        { st with visiting := node :: st.visiting } rfl
      simp only [hEach, Except.map]
      refine ⟨_, rfl, ?_, hQuiet.cyclesFound⟩
      simp only [hQuiet.visiting, List.erase_cons_head]

theorem dfsRoots_quiet (hGraph : Graph.Of jobs graph) (hKnown : NeedsKnown jobs)
    (hAcyclic : Acyclic (Needs jobs)) (roots : List String) (hRoots : roots ⊆ jobs.keys) (st : DfsState)
    (hVisiting : st.visiting = []) :
    ∃ st', dfsRoots graph (graph.keys.length + 1) roots st = .ok st' ∧ st.Quiet st' := by
  induction roots generalizing st with
  | nil => exact ⟨st, rfl, .refl st⟩
  | cons job rest ih =>
    obtain ⟨hJob, hRest⟩ := List.cons_subset.mp hRoots
    rw [dfsRoots]
    split
    · exact ih hRest st hVisiting
    · obtain ⟨st₁, hFirst, hQuiet₁⟩ := dfs_quiet hGraph hKnown hAcyclic (graph.keys.length + 1) [] job st
        (by simp) List.nodup_nil (List.nil_subset _) hJob (by simp [hVisiting]) (by simp [hGraph.keys])
      obtain ⟨st₂, hSecond, hQuiet₂⟩ := ih hRest st₁ (hQuiet₁.visiting.trans hVisiting)
      refine ⟨st₂, ?_, hQuiet₁.trans hQuiet₂⟩
      rw [hFirst]
      exact hSecond

theorem detectCycles_ok (hGraph : Graph.Of jobs graph) (hKnown : NeedsKnown jobs)
    (hAcyclic : Acyclic (Needs jobs)) : detectCycles graph = .ok () := by
  obtain ⟨st, hRoots, hQuiet⟩ := dfsRoots_quiet hGraph hKnown hAcyclic graph.keys
    (by rw [hGraph.keys]; exact List.Subset.refl _) {} rfl
  rw [detectCycles, hRoots]
  exact if_pos hQuiet.cyclesFound

end Forge.Engine
