import Forge.Engine.ExecutionPlan

/-! # Skipping the dependents of a failed job

The recursion over dependents has no set of visited jobs, but the graph is acyclic. It changes no
status to or from `succeeded`, so the edges it follows are fixed when it starts.
-/
namespace Forge.Engine
open Forge.Python Forge.Theory Relation
set_option autoImplicit false

def Statuses.of (statuses : Statuses) (job : String) : JobStatus := statuses.getD job .queued

/-- From a job to a dependent that is not in `done`. -/
def SkipEdge (jobs : JobsConfig) (done : String → Prop) (job dependent : String) : Prop :=
  Needs jobs dependent job ∧ ¬ done dependent

theorem not_done_of_path {jobs : JobsConfig} {done : String → Prop} {job dependent : String}
    (h : TransGen (SkipEdge jobs done) job dependent) : ¬ done dependent := by
  cases h with
  | single hEdge => exact hEdge.2
  | tail _ hEdge => exact hEdge.2

/-- The statuses after the jobs in `reached` have been skipped. -/
structure Skipped (reached : String → Prop) (st st' : Statuses) : Prop where
  keys : st'.keys = st.keys
  marked : ∀ job, reached job → st'.of job = .skipped
  others : ∀ job, ¬ reached job → st'.of job = st.of job

theorem set_of (st : Statuses) (job other : String) (status : JobStatus) :
    Statuses.of (st.set job status) other = if other = job then status else st.of other :=
  Dict.getD_set st job other status .queued

theorem Skipped.done {done reached : String → Prop} {st st' : Statuses} (h : Skipped reached st st')
    (hReached : ∀ job, reached job → ¬ done job)
    (hDone : ∀ job, st.of job = .succeeded ↔ done job) (job : String) :
    st'.of job = .succeeded ↔ done job := by
  by_cases hJob : reached job
  · rw [h.marked job hJob]
    simp [hReached job hJob]
  · rw [h.others job hJob, hDone]

section
variable {jobs : JobsConfig} {done : String → Prop} {skip : String → Statuses → Option Statuses}

theorem skipEach_skipped (ds : List String)
    (hSkip : ∀ d ∈ ds, ¬ done d → ∀ st : Statuses, (∀ j, st.of j = .succeeded ↔ done j) →
      st.keys = jobs.keys →
      ∃ st', skip d st = some st' ∧ Skipped (TransGen (SkipEdge jobs done) d) st st')
    (hKeys : ∀ d ∈ ds, d ∈ jobs.keys) (st : Statuses) (hDone : ∀ j, st.of j = .succeeded ↔ done j)
    (hStatuses : st.keys = jobs.keys) :
    ∃ st', skipEach skip ds st = some st' ∧
      Skipped (fun j => ∃ d ∈ ds, ¬ done d ∧ ReflTransGen (SkipEdge jobs done) d j) st st' := by
  induction ds generalizing st with
  | nil => exact ⟨st, rfl, rfl, by simp, fun _ _ => rfl⟩
  | cons d rest ih =>
    have ih := ih (fun e he => hSkip e (List.mem_cons_of_mem d he))
      (fun e he => hKeys e (List.mem_cons_of_mem d he))
    by_cases hHead : done d
    · obtain ⟨st', hRest, hSkipped⟩ := ih st hDone hStatuses
      refine ⟨st', ?_, hSkipped.keys, ?_, ?_⟩
      · have hStatus : st.getD d .queued = .succeeded := (hDone d).mpr hHead
        rw [skipEach, if_pos hStatus, hRest]
      · rintro j ⟨e, he, hFresh, hPath⟩
        rcases List.mem_cons.mp he with rfl | he
        · exact absurd hHead hFresh
        · exact hSkipped.marked j ⟨e, he, hFresh, hPath⟩
      · intro j hNot
        apply hSkipped.others
        rintro ⟨e, he, hFresh, hPath⟩
        exact hNot ⟨e, List.mem_cons_of_mem d he, hFresh, hPath⟩
    · have hStatus : st.getD d .queued ≠ .succeeded := fun hEq => hHead ((hDone d).mp hEq)
      have hSetKeys : (st.set d .skipped).keys = jobs.keys := by
        rw [Dict.keys_set, hStatuses, if_pos (hKeys d List.mem_cons_self)]
      have hSetDone : ∀ j, Statuses.of (st.set d .skipped) j = .succeeded ↔ done j := by
        intro j
        rw [set_of]
        split
        · rename_i hSame
          simp [hSame, hHead]
        · exact hDone j
      obtain ⟨st₁, hFirst, hSkipped₁⟩ := hSkip d List.mem_cons_self hHead _ hSetDone hSetKeys
      have hDone₁ := hSkipped₁.done (fun j hPath => not_done_of_path hPath) hSetDone
      obtain ⟨st₂, hSecond, hSkipped₂⟩ := ih st₁ hDone₁ (hSkipped₁.keys.trans hSetKeys)
      refine ⟨st₂, ?_, ?_, ?_, ?_⟩
      · rw [skipEach, if_neg hStatus, hFirst]
        exact hSecond
      · rw [hSkipped₂.keys, hSkipped₁.keys, hSetKeys, hStatuses]
      · rintro j ⟨e, he, hFresh, hPath⟩
        by_cases hLater : ∃ e ∈ rest, ¬ done e ∧ ReflTransGen (SkipEdge jobs done) e j
        · exact hSkipped₂.marked j hLater
        · rw [hSkipped₂.others j hLater]
          rcases List.mem_cons.mp he with rfl | he
          · by_cases hTrans : TransGen (SkipEdge jobs done) e j
            · exact hSkipped₁.marked j hTrans
            · rw [hSkipped₁.others j hTrans, set_of, if_pos]
              rcases reflTransGen_iff_eq_or_transGen.mp hPath with hSame | hPath
              · exact hSame
              · exact absurd hPath hTrans
          · exact absurd ⟨e, he, hFresh, hPath⟩ hLater
      · intro j hNot
        rw [hSkipped₂.others j fun ⟨e, he, hRest⟩ => hNot ⟨e, List.mem_cons_of_mem d he, hRest⟩,
          hSkipped₁.others j fun hPath => hNot ⟨d, List.mem_cons_self, hHead, hPath.to_reflTransGen⟩,
          set_of, if_neg]
        rintro rfl
        exact hNot ⟨j, List.mem_cons_self, hHead, .refl⟩

end

variable {jobs : JobsConfig} {s : DAGScheduler}

theorem skipDependents_skipped (h : s.Built jobs) {done : String → Prop} (fuel : Nat) (job : String)
    (st : Statuses) (hJob : job ∈ jobs.keys) (hDone : ∀ j, st.of j = .succeeded ↔ done j)
    (hStatuses : st.keys = jobs.keys)
    (hFuel : jobs.keys.length ≤ fuel + s.sortedJobs.idxOf job) :
    ∃ st', skipDependents s.graph fuel job st = some st' ∧
      Skipped (TransGen (SkipEdge jobs done) job) st st' := by
  induction fuel generalizing job st with
  | zero =>
    have := List.idxOf_lt_length_of_mem (h.perm.mem_iff.mpr hJob)
    rw [h.perm.length_eq] at this
    omega
  | succ fuel ih =>
    have hDependents : ∀ d, d ∈ s.graph.dependents job ↔ Needs jobs d job := fun d =>
      h.graph.mem_dependents hJob
    have hSkip : ∀ d ∈ s.graph.dependents job, ¬ done d → ∀ st₁ : Statuses,
        (∀ j, st₁.of j = .succeeded ↔ done j) → st₁.keys = jobs.keys →
        ∃ st', skipDependents s.graph fuel d st₁ = some st' ∧
          Skipped (TransGen (SkipEdge jobs done) d) st₁ st' := by
      intro d hd _ st₁ hDone₁ hStatuses₁
      have hNeeds := (hDependents d).mp hd
      have hLater := h.ordered.idxOf_lt (h.perm.mem_iff.mpr hNeeds.mem_keys) hNeeds
      exact ih d st₁ hNeeds.mem_keys hDone₁ hStatuses₁ (by omega)
    obtain ⟨st', hEach, hSkipped⟩ := skipEach_skipped (s.graph.dependents job) hSkip
      (fun d hd => ((hDependents d).mp hd).mem_keys) st hDone hStatuses
    have hReach : ∀ j, TransGen (SkipEdge jobs done) job j ↔
        ∃ d ∈ s.graph.dependents job, ¬ done d ∧ ReflTransGen (SkipEdge jobs done) d j := by
      intro j
      rw [TransGen.head'_iff]
      constructor
      · rintro ⟨d, hEdge, hPath⟩
        exact ⟨d, (hDependents d).mpr hEdge.1, hEdge.2, hPath⟩
      · rintro ⟨d, hd, hFresh, hPath⟩
        exact ⟨d, ⟨(hDependents d).mp hd, hFresh⟩, hPath⟩
    refine ⟨st', hEach, hSkipped.keys, ?_, ?_⟩
    · exact fun j hPath => hSkipped.marked j ((hReach j).mp hPath)
    · exact fun j hNot => hSkipped.others j fun hPath => hNot ((hReach j).mpr hPath)

theorem needs_of_path {done : String → Prop} {job dependent : String}
    (h : TransGen (SkipEdge jobs done) job dependent) : TransGen (Needs jobs) dependent job := by
  induction h with
  | single hEdge => exact .single hEdge.1
  | tail _ hEdge ih => exact .head hEdge.1 ih

/-- Whether `job` counts as succeeded once `failed` has been marked. -/
def DAGScheduler.DoneBut (s : DAGScheduler) (failed job : String) : Prop :=
  job ≠ failed ∧ s.getJobStatus job = .succeeded

/-- The effect of `mark_job_failed`. -/
structure DAGScheduler.Marked (jobs : JobsConfig) (s : DAGScheduler) (job : String)
    (s' : DAGScheduler) : Prop where
  built : s'.Built jobs
  keys : s'.jobStatuses.keys = jobs.keys
  failed : s'.getJobStatus job = .failed
  skipped : ∀ d, TransGen (SkipEdge jobs (s.DoneBut job)) job d → s'.getJobStatus d = .skipped
  others : ∀ d, d ≠ job → ¬ TransGen (SkipEdge jobs (s.DoneBut job)) job d →
    s'.getJobStatus d = s.getJobStatus d

theorem DAGScheduler.markJobFailed_marked (h : s.Built jobs) (hAcyclic : Acyclic (Needs jobs))
    (hStatuses : s.jobStatuses.keys = jobs.keys) {job : String} (hJob : job ∈ jobs.keys) :
    ∃ s', s.markJobFailed job = some s' ∧ s.Marked jobs job s' := by
  have hSetKeys : (s.jobStatuses.set job .failed).keys = jobs.keys := by
    rw [Dict.keys_set, hStatuses, if_pos hJob]
  have hDone : ∀ j, Statuses.of (s.jobStatuses.set job .failed) j = .succeeded ↔ s.DoneBut job j := by
    intro j
    rw [set_of, DoneBut]
    by_cases hSame : j = job
    · simp [hSame]
    · simp only [hSame, if_false, ne_eq, not_false_eq_true, true_and]
      rfl
  obtain ⟨st', hSkip, hSkipped⟩ := skipDependents_skipped h s.graph.keys.length job _ hJob hDone
    hSetKeys (by rw [h.graph.keys]; omega)
  refine ⟨{ s with jobStatuses := st' }, by rw [markJobFailed, hSkip]; rfl,
    ⟨h.graph, h.perm, h.ordered⟩, hSkipped.keys.trans hSetKeys, ?_, hSkipped.marked, ?_⟩
  · have hSelf : ¬ TransGen (SkipEdge jobs (s.DoneBut job)) job job := fun hPath =>
      hAcyclic job (needs_of_path hPath)
    exact (hSkipped.others job hSelf).trans (by rw [set_of, if_pos rfl])
  · intro d hNe hNot
    exact (hSkipped.others d hNot).trans (by rw [set_of, if_neg hNe]; rfl)

end Forge.Engine
