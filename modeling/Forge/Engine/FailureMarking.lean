import Forge.Engine.Levelling

/-! # Marking a failed job

`mark_job_failed` on any scheduler that could be built, with any statuses. A path that starts at the failed
job does not come back to it, so the status which that job had does not matter to what is skipped.
-/
namespace Forge.Engine
open Forge.Python Forge.Theory Relation
set_option autoImplicit false

variable {jobs : JobsConfig} {s : DAGScheduler}

/-- From a job to one of its dependents that has not succeeded. -/
def DAGScheduler.Reaches (s : DAGScheduler) (job dependent : String) : Prop :=
  dependent ∈ s.graph.dependents job ∧ s.getJobStatus dependent ≠ .succeeded

theorem Graph.Of.mem_dependents_iff {graph : Graph} (h : Graph.Of jobs graph) (hKnown : NeedsKnown jobs)
    (d job : String) : d ∈ graph.dependents job ↔ Needs jobs d job := by
  by_cases hJob : job ∈ jobs.keys
  · exact h.mem_dependents hJob
  · have hNone : graph.get? job = none := by
      rw [Dict.get?_eq_none_iff, h.keys]
      exact hJob
    constructor
    · intro hMem
      simp [Graph.dependents, hNone] at hMem
    · exact fun hNeeds => absurd (hKnown d job hNeeds) hJob

theorem transGen_reaches_iff (h : s.Built jobs) (hKnown : NeedsKnown jobs)
    (hAcyclic : Acyclic (Needs jobs)) {job d : String} :
    TransGen (SkipEdge jobs (s.DoneBut job)) job d ↔ TransGen s.Reaches job d := by
  have hEdge : ∀ {a b : String}, TransGen (SkipEdge jobs (s.DoneBut job)) job b →
      SkipEdge jobs (s.DoneBut job) a b → s.Reaches a b := by
    intro a b hPath hSkip
    refine ⟨(h.graph.mem_dependents_iff hKnown b a).mpr hSkip.1, fun hSucceeded => ?_⟩
    apply hSkip.2
    refine ⟨?_, hSucceeded⟩
    rintro rfl
    exact hAcyclic b (needs_of_path hPath)
  constructor
  · intro hPath
    induction hPath with
    | single hSkip => exact .single (hEdge (.single hSkip) hSkip)
    | tail hBefore hSkip ih => exact ih.tail (hEdge (hBefore.tail hSkip) hSkip)
  · intro hPath
    refine TransGen.mono (fun a b hReaches => ?_) job d hPath
    exact ⟨(h.graph.mem_dependents_iff hKnown b a).mp hReaches.1, fun hDone => hReaches.2 hDone.2⟩

/-- Where success presupposes that of the needs, all that need an unsuccessful job are reached from it. -/
theorem transGen_reaches_iff_needs (h : s.Built jobs) (hKnown : NeedsKnown jobs)
    (hEarlier : ∀ d need, Needs jobs d need → s.getJobStatus d = .succeeded →
      s.getJobStatus need = .succeeded)
    {job : String} (hJob : s.getJobStatus job ≠ .succeeded) (d : String) :
    TransGen s.Reaches job d ↔ TransGen (Needs jobs) d job := by
  have hFresh : ∀ {d}, TransGen (Needs jobs) d job → s.getJobStatus d ≠ .succeeded := by
    intro d hNeeds
    induction hNeeds using TransGen.head_induction_on with
    | single hNeed => exact fun hSucceeded => hJob (hEarlier _ _ hNeed hSucceeded)
    | head hNeed _ ih => exact fun hSucceeded => ih (hEarlier _ _ hNeed hSucceeded)
  constructor
  · intro hPath
    induction hPath with
    | single hReaches => exact .single ((h.graph.mem_dependents_iff hKnown _ _).mp hReaches.1)
    | tail _ hReaches ih => exact .head ((h.graph.mem_dependents_iff hKnown _ _).mp hReaches.1) ih
  · intro hNeeds
    induction hNeeds using TransGen.head_induction_on with
    | single hNeed =>
      exact .single ⟨(h.graph.mem_dependents_iff hKnown _ _).mpr hNeed, hFresh (.single hNeed)⟩
    | head hNeed hPath ih =>
      exact .tail ih ⟨(h.graph.mem_dependents_iff hKnown _ _).mpr hNeed, hFresh (.head hNeed hPath)⟩

/-- `job` is marked as failed, the jobs `reached` as skipped, and nothing else changes. -/
structure MarksExactly (s s' : DAGScheduler) (job : String) (reached : String → Prop) : Prop where
  failed : s'.getJobStatus job = .failed
  skipped : ∀ d, reached d → s'.getJobStatus d = .skipped
  others : ∀ d, d ≠ job → ¬ reached d → s'.getJobStatus d = s.getJobStatus d

theorem markJobFailed_marksExactly (hNew : DAGScheduler.new jobs = .ok s) {statuses : Statuses}
    (hStatuses : statuses.keys = jobs.keys) {job : String} (hJob : job ∈ jobs.keys) :
    ∃ s', { s with jobStatuses := statuses }.markJobFailed job = some s' ∧
      MarksExactly { s with jobStatuses := statuses } s' job
        (TransGen { s with jobStatuses := statuses }.Reaches job) ∧
      ((∀ d need, Needs jobs d need → statuses.of d = .succeeded → statuses.of need = .succeeded) →
        statuses.of job ≠ .succeeded →
        MarksExactly { s with jobStatuses := statuses } s' job fun d => TransGen (Needs jobs) d job) := by
  obtain ⟨g, rfl⟩ := DAGScheduler.graph_of_new hNew
  obtain ⟨built, hBuilt, hSorted, -⟩ := DAGScheduler.new_ok g.known g.acyclic
  cases hNew.symm.trans hBuilt
  have hAny : DAGScheduler.Built g.jobs { s with jobStatuses := statuses } :=
    ⟨hSorted.graph, hSorted.perm, hSorted.ordered⟩
  obtain ⟨s', hMark, hMarked⟩ := DAGScheduler.markJobFailed_marked hAny g.acyclic hStatuses hJob
  have hReach : ∀ d, TransGen (SkipEdge g.jobs _) job d ↔ TransGen _ job d := fun d =>
    transGen_reaches_iff hAny g.known g.acyclic
  have hExactly : MarksExactly { s with jobStatuses := statuses } s' job
      (TransGen { s with jobStatuses := statuses }.Reaches job) := {
    failed := hMarked.failed
    skipped := fun d hPath => hMarked.skipped d ((hReach d).mpr hPath)
    others := fun d hNe hNot => hMarked.others d hNe fun hPath => hNot ((hReach d).mp hPath) }
  refine ⟨s', hMark, hExactly, fun hEarlier hFails => ?_⟩
  have hNeeds : TransGen { s with jobStatuses := statuses }.Reaches job =
      fun d => TransGen (Needs g.jobs) d job := by
    funext d
    exact propext (transGen_reaches_iff_needs hAny g.known hEarlier hFails d)
  exact hNeeds ▸ hExactly

/-- A diamond in which `test` needs `build` twice, and a job beside it. -/
def diamondJobs : JobsConfig :=
  .ofList [("deploy", { needs := ["test", "docs"] }), ("test", { needs := ["build", "build"] }),
    ("docs", { needs := ["build"] }), ("build", {}), ("lint", {})]

/-- `docs` has succeeded, although `build` has not. -/
def diamondStatuses : Statuses :=
  .ofList [("deploy", .queued), ("test", .queued), ("docs", .succeeded), ("build", .running), ("lint", .running)]

/-- Only `lint` has succeeded. -/
def earlyStatuses : Statuses :=
  .ofList [("deploy", .queued), ("test", .queued), ("docs", .queued), ("build", .running), ("lint", .succeeded)]

theorem diamondJobs_marked : ∃ s s₁ s₂, DAGScheduler.new diamondJobs = .ok s ∧
    { s with jobStatuses := diamondStatuses }.markJobFailed "build" = some s₁ ∧
    s₁.statuses = [("deploy", "skipped"), ("test", "skipped"), ("docs", "succeeded"), ("build", "failed"),
      ("lint", "running")] ∧
    MarksExactly { s with jobStatuses := diamondStatuses } s₁ "build"
      (TransGen { s with jobStatuses := diamondStatuses }.Reaches "build") ∧
    { s with jobStatuses := earlyStatuses }.markJobFailed "build" = some s₂ ∧
    MarksExactly { s with jobStatuses := earlyStatuses } s₂ "build" fun d =>
      TransGen (Needs diamondJobs) d "build" := by
  obtain ⟨s, hNew, hStatuses⟩ : ∃ s, DAGScheduler.new diamondJobs = .ok s ∧
      ({ s with jobStatuses := diamondStatuses }.markJobFailed "build").map DAGScheduler.statuses =
        some [("deploy", "skipped"), ("test", "skipped"), ("docs", "succeeded"), ("build", "failed"),
          ("lint", "running")] := ⟨_, rfl, rfl⟩
  have hBuild : "build" ∈ diamondJobs.keys := by decide
  have hDiamond : diamondStatuses.keys = diamondJobs.keys := by rfl
  have hEarly : earlyStatuses.keys = diamondJobs.keys := by rfl
  obtain ⟨s₁, hMark₁, hExactly₁, -⟩ := markJobFailed_marksExactly hNew hDiamond hBuild
  obtain ⟨s₂, hMark₂, -, hNeeds⟩ := markJobFailed_marksExactly hNew hEarly hBuild
  rw [hMark₁] at hStatuses
  refine ⟨s, s₁, s₂, hNew, hMark₁, Option.some.inj hStatuses, hExactly₁, hMark₂, hNeeds ?_ (by decide)⟩
  intro d need hNeed hSucceeded
  have hNone : ∀ d ∈ ["deploy", "test", "docs", "build", "lint"], needsOf diamondJobs d ≠ [] →
      earlyStatuses.of d ≠ .succeeded := by decide
  exact absurd hSucceeded (hNone d hNeed.mem_keys (List.ne_nil_of_mem hNeed))

end Forge.Engine
