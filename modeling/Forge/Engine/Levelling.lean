import Forge.Engine.RunResult

/-! # The levels of an execution plan

A levelling distributes the jobs over levels so that every need lies below the job that declares it. The
plan of the scheduler puts each job as low as any levelling can.
-/
namespace Forge.Engine
open Forge.Python Forge.Theory Relation
set_option autoImplicit false

structure IsLevelling (jobs : JobsConfig) (levels : List (List String)) : Prop where
  perm : levels.flatten.Perm jobs.keys
  below : ∀ (i : ℕ) (level : List String), levels[i]? = some level → ∀ job ∈ level, ∀ dep,
    Needs jobs job dep → ∃ (j : ℕ) (lower : List String), levels[j]? = some lower ∧ j < i ∧ dep ∈ lower

/-- Each job stands at the length of the longest chain of needs below it. -/
structure IsLeastLevelling (jobs : JobsConfig) (levels : List (List String)) : Prop
    extends IsLevelling jobs levels where
  level_iff : ∀ (i : ℕ) (level : List String), levels[i]? = some level → ∀ job,
    job ∈ level ↔ job ∈ jobs.keys ∧ IsLongestChain (Needs jobs) job i
  exists_unique : ∀ job ∈ jobs.keys, ∃! i : ℕ, ∃ level, levels[i]? = some level ∧ job ∈ level
  independent : ∀ level ∈ levels, ∀ job ∈ level, ∀ other ∈ level, ¬ TransGen (Needs jobs) job other
  length_le : ∀ others, IsLevelling jobs others → levels.length ≤ others.length

variable {g : JobGraph} {plan : List (List String)}

theorem JobGraph.isLongestChain_level (g : JobGraph) (job : String) :
    IsLongestChain (Needs g.jobs) job (g.level job) :=
  isLongestChain_depth g.wellFounded job

theorem JobGraph.level_eq_iff {job : String} {n : ℕ} :
    g.level job = n ↔ IsLongestChain (Needs g.jobs) job n := by
  constructor
  · rintro rfl
    exact g.isLongestChain_level job
  · exact fun h => (g.isLongestChain_level job).unique h

/-! ## Levels by their positions -/

theorem exists_split {levels : List (List String)} {i : ℕ} {level : List String}
    (h : levels[i]? = some level) : ∃ pre post, levels = pre ++ level :: post ∧ pre.length = i := by
  obtain ⟨hLength, hGet⟩ := List.getElem?_eq_some_iff.mp h
  refine ⟨levels.take i, levels.drop (i + 1), ?_, ?_⟩
  · rw [← hGet, List.getElem_cons_drop, List.take_append_drop]
  · rw [List.length_take]
    omega

theorem Levels.mem_at_iff (h : Levels g.jobs [] plan) {i : ℕ} {level : List String}
    (hAt : plan[i]? = some level) (job : String) : job ∈ level ↔ job ∈ g.jobs.keys ∧ g.level job = i := by
  obtain ⟨pre, post, hSplit, rfl⟩ := exists_split hAt
  exact h.mem_level_iff hSplit job

theorem Levels.exists_at (h : Levels g.jobs [] plan) {job : String} (hJob : job ∈ g.jobs.keys) :
    ∃ level, plan[g.level job]? = some level ∧ job ∈ level := by
  have hLess := h.level_lt_length hJob
  have hAt : plan[g.level job]? = some plan[g.level job] := List.getElem?_eq_getElem hLess
  exact ⟨plan[g.level job], hAt, (h.mem_at_iff hAt job).mpr ⟨hJob, rfl⟩⟩

theorem Levels.isLevelling (h : Levels g.jobs [] plan) : IsLevelling g.jobs plan where
  perm := h.perm
  below i level hAt job hJob dep hNeeds := by
    obtain ⟨lower, hLower, hDep⟩ := h.exists_at (g.known job dep hNeeds)
    have hLevel := ((h.mem_at_iff hAt job).mp hJob).2
    exact ⟨g.level dep, lower, hLower, hLevel ▸ JobGraph.level_lt_of_needs hNeeds, hDep⟩

/-! ## No levelling is lower -/

/-- The position of the first level that holds a job. -/
def positionOf (levels : List (List String)) (job : String) : ℕ := levels.findIdx fun level => job ∈ level

theorem positionOf_eq {levels : List (List String)} (hNodup : levels.flatten.Nodup) {i : ℕ}
    {level : List String} (hAt : levels[i]? = some level) {job : String} (hJob : job ∈ level) :
    positionOf levels job = i := by
  obtain ⟨pre, post, rfl, rfl⟩ := exists_split hAt
  rw [List.flatten_append, List.flatten_cons, List.nodup_append] at hNodup
  have hAbsent : ∀ other ∈ pre, job ∉ other := by
    intro other hOther hMem
    exact hNodup.2.2 job (List.mem_flatten.mpr ⟨other, hOther, hMem⟩) job (by simp [hJob]) rfl
  have hPre : pre.findIdx (fun level => job ∈ level) = pre.length :=
    List.findIdx_eq_length_of_false (by simpa using hAbsent)
  rw [positionOf, List.findIdx_append, hPre, if_neg (Nat.lt_irrefl _), List.findIdx_cons]
  simp [hJob]

theorem IsLevelling.exists_at {levels : List (List String)} {jobs : JobsConfig} (h : IsLevelling jobs levels)
    {job : String} (hJob : job ∈ jobs.keys) :
    ∃ level, levels[positionOf levels job]? = some level ∧ job ∈ level := by
  obtain ⟨level, hLevel, hMem⟩ := List.mem_flatten.mp (h.perm.mem_iff.mpr hJob)
  obtain ⟨i, hAt⟩ := List.getElem?_of_mem hLevel
  have hPosition := positionOf_eq (h.perm.nodup_iff.mpr jobs.nodup) hAt hMem
  exact ⟨level, hPosition ▸ hAt, hMem⟩

theorem IsLevelling.position_lt {levels : List (List String)} {jobs : JobsConfig}
    (h : IsLevelling jobs levels) {job dep : String} (hNeeds : Needs jobs job dep) :
    positionOf levels dep < positionOf levels job := by
  obtain ⟨level, hAt, hJob⟩ := h.exists_at hNeeds.mem_keys
  obtain ⟨j, lower, hLower, hLess, hDep⟩ := h.below _ level hAt job hJob dep hNeeds
  rw [positionOf_eq (h.perm.nodup_iff.mpr jobs.nodup) hLower hDep]
  exact hLess

theorem Levels.length_le (h : Levels g.jobs [] plan) {others : List (List String)}
    (hOthers : IsLevelling g.jobs others) : plan.length ≤ others.length := by
  rcases List.eq_nil_or_concat plan with rfl | ⟨init, last, rfl⟩
  · exact Nat.zero_le _
  · rw [List.concat_eq_append] at h ⊢
    obtain ⟨job, hJob⟩ := List.exists_mem_of_ne_nil last (h.nonempty last (by simp))
    obtain ⟨hKey, hLevel⟩ := (h.mem_level_iff (show init ++ [last] = init ++ last :: [] from rfl) job).mp hJob
    obtain ⟨level, hAt, -⟩ := hOthers.exists_at hKey
    have hLess := (List.getElem?_eq_some_iff.mp hAt).1
    have hLow : g.level job ≤ positionOf others job :=
      depth_le_rank g.wellFounded (fun _ _ hNeeds => hOthers.position_lt hNeeds) job
    rw [List.length_append, List.length_singleton]
    omega

theorem Levels.isLeastLevelling (h : Levels g.jobs [] plan) : IsLeastLevelling g.jobs plan where
  toIsLevelling := h.isLevelling
  level_iff i level hAt job := by
    rw [h.mem_at_iff hAt, JobGraph.level_eq_iff]
  exists_unique job hJob := by
    refine ⟨g.level job, h.exists_at hJob, ?_⟩
    rintro i ⟨level, hAt, hMem⟩
    exact ((h.mem_at_iff hAt job).mp hMem).2.symm
  independent level hLevel job hJob other hOther hPath := by
    obtain ⟨i, hAt⟩ := List.getElem?_of_mem hLevel
    have hLess := JobGraph.level_lt hPath
    rw [((h.mem_at_iff hAt job).mp hJob).2, ((h.mem_at_iff hAt other).mp hOther).2] at hLess
    exact Nat.lt_irrefl i hLess
  length_le _ hOthers := h.length_le hOthers

/-! ## The scheduler -/

theorem DAGScheduler.graph_of_new {jobs : JobsConfig} {s : DAGScheduler} (h : DAGScheduler.new jobs = .ok s) :
    ∃ g : JobGraph, g.jobs = jobs :=
  ⟨⟨jobs, DAGScheduler.needsKnown h, DAGScheduler.new_acyclic (DAGScheduler.needsKnown h) h⟩, rfl⟩

/-- What the sort and the plan of every scheduler that can be built look like. -/
theorem DAGScheduler.plan_isLeastLevelling {jobs : JobsConfig} {s : DAGScheduler}
    (h : DAGScheduler.new jobs = .ok s) :
    s.sortedJobs.Perm jobs.keys ∧ Ordered jobs s.sortedJobs ∧
      ∃ levels, s.getExecutionPlan = .ok levels ∧ IsLeastLevelling jobs levels := by
  obtain ⟨g, rfl⟩ := graph_of_new h
  obtain ⟨s', hNew, hBuilt, -⟩ := DAGScheduler.new_ok g.known g.acyclic
  cases h.symm.trans hNew
  obtain ⟨levels, hPlan, hLevels⟩ := getExecutionPlan_ok hBuilt g.known g.acyclic
  exact ⟨hBuilt.perm, hBuilt.ordered, levels, hPlan, hLevels.isLeastLevelling⟩

/-- `app` needs `lib` twice and `core`, which `lib` needs as well. -/
def layeredJobs : JobsConfig :=
  .ofList [("app", { needs := ["lib", "lib", "core"] }), ("lib", { needs := ["core"] }), ("core", {})]

theorem layeredJobs_plan : ∃ s, DAGScheduler.new layeredJobs = .ok s ∧
    s.getExecutionPlan = .ok [["core"], ["lib"], ["app"]] ∧
      IsLeastLevelling layeredJobs [["core"], ["lib"], ["app"]] := by
  obtain ⟨s, hNew, hPlan⟩ : ∃ s, DAGScheduler.new layeredJobs = .ok s ∧
      s.getExecutionPlan = .ok [["core"], ["lib"], ["app"]] := ⟨_, rfl, rfl⟩
  obtain ⟨-, -, levels, hLevels, hLeast⟩ := DAGScheduler.plan_isLeastLevelling hNew
  cases hPlan.symm.trans hLevels
  exact ⟨s, hNew, hPlan, hLeast⟩

end Forge.Engine
