import Forge.Engine.TopologicalSort

/-! # The execution plan

Each level holds the jobs whose needs lie in the levels before it, as early as that is the case.
-/
namespace Forge.Engine
open Forge.Python Forge.Theory
set_option autoImplicit false

/-- The levels of a plan over the jobs `processed` before it. -/
structure Levels (jobs : JobsConfig) (processed : List String) (levels : List (List String)) :
    Prop where
  perm : (processed ++ levels.flatten).Perm jobs.keys
  below : ∀ pre level post, levels = pre ++ level :: post → ∀ job ∈ level, ∀ dep,
    Needs jobs job dep → dep ∈ processed ++ pre.flatten
  greedy : ∀ pre level post, levels = pre ++ level :: post → ∀ job ∈ jobs.keys,
    job ∉ processed ++ pre.flatten → (∀ dep, Needs jobs job dep → dep ∈ processed ++ pre.flatten) →
    job ∈ level
  nonempty : ∀ level ∈ levels, level ≠ []

variable {jobs : JobsConfig} {s : DAGScheduler}

theorem mem_currentLevel (h : s.Built jobs) {processed : List String} {job : String} :
    job ∈ currentLevel s processed ↔ job ∈ jobs.keys ∧ job ∉ processed ∧
      ∀ dep, Needs jobs job dep → dep ∈ processed := by
  simp [currentLevel, h.perm.mem_iff, h.graph.mem_needs]

theorem currentLevel_ne_nil (h : s.Built jobs) (hKnown : NeedsKnown jobs)
    (hAcyclic : Acyclic (Needs jobs)) {processed : List String}
    (hLength : processed.length < jobs.keys.length) :
    currentLevel s processed ≠ [] := by
  intro hNil
  have hAll : ∀ job ∈ jobs.keys, job ∈ processed := by
    apply hAcyclic.induction_on
    · exact fun job _ dep hNeeds => hKnown job dep hNeeds
    · intro job hJob hDeps
      by_contra hAbsent
      have hMem := (mem_currentLevel h).mpr ⟨hJob, hAbsent, hDeps⟩
      rw [hNil] at hMem
      cases hMem
  have := (List.Nodup.subperm jobs.nodup hAll).length_le
  rw [Dict.keys, List.length_map] at hLength
  simp only [List.length_map] at this
  omega

theorem Levels.cons {processed level : List String} {levels : List (List String)}
    (hLevel : ∀ job, job ∈ level ↔ job ∈ jobs.keys ∧ job ∉ processed ∧
      ∀ dep, Needs jobs job dep → dep ∈ processed)
    (hNonempty : level ≠ []) (h : Levels jobs (processed ++ level) levels) :
    Levels jobs processed (level :: levels) := by
  constructor
  · rw [List.flatten_cons, ← List.append_assoc]
    exact h.perm
  · intro pre current post hSplit job hJob dep hNeeds
    cases pre with
    | nil =>
      cases hSplit
      simpa using ((hLevel job).mp hJob).2.2 dep hNeeds
    | cons first pre =>
      obtain ⟨rfl, hTail⟩ := List.cons.inj hSplit
      rw [List.flatten_cons, ← List.append_assoc]
      exact h.below pre current post hTail job hJob dep hNeeds
  · intro pre current post hSplit job hJob hAbsent hDeps
    cases pre with
    | nil =>
      cases hSplit
      simp only [List.flatten_nil, List.append_nil] at hAbsent hDeps
      exact (hLevel job).mpr ⟨hJob, hAbsent, hDeps⟩
    | cons first pre =>
      obtain ⟨rfl, hTail⟩ := List.cons.inj hSplit
      rw [List.flatten_cons, ← List.append_assoc] at hAbsent hDeps
      exact h.greedy pre current post hTail job hJob hAbsent hDeps
  · intro current hCurrent
    rcases List.mem_cons.mp hCurrent with rfl | hRest
    · exact hNonempty
    · exact h.nonempty current hRest

theorem planFrom_done {fuel : Nat} {processed : List String}
    (h : ¬ processed.length < s.graph.keys.length) : planFrom s fuel processed = .ok [] := by
  unfold planFrom
  exact if_neg h

theorem planFrom_more {fuel : Nat} {processed : List String}
    (h : processed.length < s.graph.keys.length) (hLevel : currentLevel s processed ≠ []) :
    planFrom s (fuel + 1) processed = (planFrom s fuel (processed ++ currentLevel s processed)).map
      fun levels => currentLevel s processed :: levels := by
  conv_lhs => unfold planFrom
  rw [if_pos h]
  split
  · rename_i hNil
    exact absurd hNil hLevel
  · rename_i hZero _
    cases hZero
  · rename_i hFuel _
    cases hFuel
    rfl

theorem Levels.nil {processed : List String} (hNodup : processed.Nodup)
    (hSubset : processed ⊆ jobs.keys) (hLength : jobs.keys.length ≤ processed.length) :
    Levels jobs processed [] := by
  have hPerm := (hNodup.subperm hSubset).perm_of_length_le hLength
  exact ⟨by simpa using hPerm, by simp, by simp, by simp⟩

theorem planFrom_ok (h : s.Built jobs) (hKnown : NeedsKnown jobs) (hAcyclic : Acyclic (Needs jobs))
    (fuel : Nat) (processed : List String) (hNodup : processed.Nodup) (hSubset : processed ⊆ jobs.keys)
    (hFuel : jobs.keys.length ≤ fuel + processed.length) :
    ∃ levels, planFrom s fuel processed = .ok levels ∧ Levels jobs processed levels := by
  have hKeys : s.graph.keys = jobs.keys := h.graph.keys
  induction fuel generalizing processed with
  | zero =>
    refine ⟨[], planFrom_done ?_, .nil hNodup hSubset (by omega)⟩
    rw [hKeys]
    omega
  | succ fuel ih =>
    by_cases hMore : processed.length < jobs.keys.length
    · have hNonempty := currentLevel_ne_nil h hKnown hAcyclic hMore
      have hFresh : ∀ job ∈ currentLevel s processed, job ∉ processed := fun job hJob =>
        ((mem_currentLevel h).mp hJob).2.1
      have hLevelNodup : (currentLevel s processed).Nodup :=
        (h.perm.nodup_iff.mpr jobs.nodup).filter _
      have hPositive := List.length_pos_iff.mpr hNonempty
      obtain ⟨levels, hRest, hLevels⟩ := ih (processed ++ currentLevel s processed)
        (hNodup.append hLevelNodup fun job hOld hNew => hFresh job hNew hOld)
        (List.append_subset.mpr ⟨hSubset, fun job hJob => ((mem_currentLevel h).mp hJob).1⟩)
        (by rw [List.length_append]; omega)
      refine ⟨currentLevel s processed :: levels, ?_,
        hLevels.cons (fun _ => mem_currentLevel h) hNonempty⟩
      rw [planFrom_more (by rw [hKeys]; exact hMore) hNonempty, hRest]
      rfl
    · refine ⟨[], planFrom_done ?_, .nil hNodup hSubset (by omega)⟩
      rw [hKeys]
      exact hMore

theorem getExecutionPlan_ok (h : s.Built jobs) (hKnown : NeedsKnown jobs)
    (hAcyclic : Acyclic (Needs jobs)) :
    ∃ levels, s.getExecutionPlan = .ok levels ∧ Levels jobs [] levels :=
  planFrom_ok h hKnown hAcyclic s.graph.keys.length [] List.nodup_nil (List.nil_subset _)
    (by simp [h.graph.keys])

end Forge.Engine
