import Forge.Engine.RunInvariant

/-! # The result of a run

The entries and the status at the end of a run are those of the reference.
-/
namespace Forge.Engine
open Forge.Python Forge.Registry Forge.Theory Relation
set_option autoImplicit false

variable {g : JobGraph} {outcome : String → Outcome} {plan : List (List String)} {s t : Execution}
  {host : Host} {registry : RegistryClient} {pipeline : PipelineConfig}

/-! ## The end of a run -/

theorem mem_statuses_iff {jobs : Dict String JobEntry} {status : EntryStatus} :
    status ∈ jobs.values.map JobEntry.status ↔ ∃ j entry, jobs.get? j = some entry ∧ entry.status = status := by
  simp [Dict.values, Dict.get?_eq_some_iff]

/-- A status other than `skipped` occurs among the entries when an executed job has it. -/
theorem Shows.mem_statuses_iff {done : List String} {jobs : Dict String JobEntry}
    (h : Shows g outcome done jobs) (hAll : g.jobs.keys ⊆ jobs.keys) (status : EntryStatus)
    (hStatus : status ≠ .job .skipped) :
    status ∈ jobs.values.map JobEntry.status ↔
      ∃ j, g.Executed outcome j ∧ (outcome j).status = status := by
  rw [Forge.Engine.mem_statuses_iff]
  constructor
  · rintro ⟨j, entry, hGet, rfl⟩
    have hExpects := h.expected j entry hGet
    by_cases hExecuted : g.Executed outcome j
    · exact ⟨j, hExecuted, (hExpects.executed hExecuted).status.symm⟩
    · rw [hExpects.skipped hExecuted] at hStatus
      exact absurd rfl hStatus
  · rintro ⟨j, hExecuted, rfl⟩
    obtain ⟨entry, hGet⟩ := Dict.mem_keys_iff.mp (hAll hExecuted.mem_keys)
    exact ⟨j, entry, hGet, ((h.expected j entry hGet).executed hExecuted).status⟩

section
variable {integrityFailed : Bool} {statuses : List EntryStatus}

theorem finalStatus_eq_integrityFailure : finalStatus integrityFailed statuses = .integrityFailure ↔
    integrityFailed = true ∨ .integrityFailure ∈ statuses := by
  unfold finalStatus
  split
  · rename_i hBad
    simp [hBad]
  · rename_i hNone
    split <;> simp [hNone]

theorem finalStatus_eq_failed : finalStatus integrityFailed statuses = .failed ↔
    ¬ (integrityFailed = true ∨ .integrityFailure ∈ statuses) ∧ .job .failed ∈ statuses := by
  unfold finalStatus
  split
  · rename_i hBad
    simp [hBad]
  · rename_i hNone
    split <;> simp_all

theorem finalStatus_eq_succeeded : finalStatus integrityFailed statuses = .succeeded ↔
    ¬ (integrityFailed = true ∨ .integrityFailure ∈ statuses) ∧ ¬ .job .failed ∈ statuses := by
  unfold finalStatus
  split
  · rename_i hBad
    simp [hBad]
  · rename_i hNone
    split <;> simp_all

end

theorem AtLevels.finish (hPlan : Levels g.jobs [] plan) {scheduler : DAGScheduler}
    {integrityFailed : Bool} {done : List String} {pre : List (List String)} (now : String)
    (h : AtLevels g outcome plan s scheduler [] integrityFailed done pre) :
    Result g outcome (s.finish integrityFailed now).run := by
  have hLength : plan.length = pre.length := by simp [h.split]
  have hBelow : ∀ j ∈ g.jobs.keys, g.level j < pre.length := fun j hJob =>
    hLength ▸ hPlan.level_lt_length hJob
  have hAll : g.jobs.keys ⊆ s.run.jobs.keys := fun j hJob => h.passed j hJob (hBelow j hJob)
  have hOnly : s.run.jobs.keys ⊆ g.jobs.keys := by
    intro j hJob
    obtain ⟨entry, hGet⟩ := Dict.mem_keys_iff.mp hJob
    exact (h.tally.shows.expected j entry hGet).mem_keys
  have hFlag : integrityFailed = true ↔ ∃ j, g.Executed outcome j ∧ outcome j = .integrityFailure := by
    rw [h.tally.integrity]
    constructor
    · rintro ⟨d, hd, hBad⟩
      exact ⟨d, h.tally.tracks.executed d hd, hBad⟩
    · rintro ⟨d, hExecuted, hBad⟩
      exact ⟨d, h.covers.complete d hExecuted (hBelow d hExecuted.mem_keys), hBad⟩
  have hIntegrity := h.tally.shows.mem_statuses_iff hAll .integrityFailure (by decide)
  have hFailed := h.tally.shows.mem_statuses_iff hAll (.job .failed) (by decide)
  simp only [Outcome.status_eq_integrityFailure] at hIntegrity
  simp only [Outcome.status_eq_failed] at hFailed
  have hStatus : (s.finish integrityFailed now).run.status =
      finalStatus integrityFailed (s.run.jobs.values.map JobEntry.status) := rfl
  refine ⟨?_, h.tally.shows.expected, ?_, ?_, ?_⟩
  · exact (List.perm_ext_iff_of_nodup s.run.jobs.nodup g.jobs.nodup).mpr fun j =>
      ⟨fun hJob => hOnly hJob, fun hJob => hAll hJob⟩
  · rw [hStatus, finalStatus_eq_integrityFailure, hFlag, hIntegrity, or_self]
  · rw [hStatus, finalStatus_eq_failed, hFlag, hIntegrity, or_self, hFailed]
  · rw [hStatus, finalStatus_eq_succeeded, hFlag, hIntegrity, or_self, hFailed]

theorem JobGraph.all_succeed (hNone : ¬ ∃ j, g.Executed outcome j ∧ ¬ (outcome j).Succeeds) {job : String}
    (hJob : job ∈ g.jobs.keys) : g.Executed outcome job := by
  by_contra hNot
  have hBelow : ∀ other, g.level other < g.level job → g.Executed outcome other →
      outcome other ≠ .integrityFailure := by
    intro other _ hExecuted hBad
    apply hNone
    refine ⟨other, hExecuted, ?_⟩
    rw [hBad, Outcome.Succeeds]
    exact Outcome.noConfusion
  obtain ⟨d, -, hExecuted, hFails⟩ := JobGraph.exists_failed_need hJob hNot hBelow
  exact hNone ⟨d, hExecuted, hFails⟩

theorem Outcome.not_succeeds {o : Outcome} : ¬ o.Succeeds ↔ o = .integrityFailure ∨ o.Fails := by
  cases o <;> simp [Outcome.Succeeds, Outcome.Fails]

theorem Result.succeeded_iff_all {run : RunState} (h : Result g outcome run) : run.status = .succeeded ↔
    ∀ job ∈ g.jobs.keys, (run.jobs.get? job).map JobEntry.status = some (.job .succeeded) := by
  have hStatus : run.status = .succeeded ↔ ¬ ∃ j, g.Executed outcome j ∧ ¬ (outcome j).Succeeds := by
    rw [h.succeeded, ← not_or, ← exists_or]
    simp only [Outcome.not_succeeds, and_or_left]
  have hEntry : ∀ job ∈ g.jobs.keys, ∃ entry, run.jobs.get? job = some entry ∧ g.Expects outcome job entry := by
    intro job hJob
    obtain ⟨entry, hGet⟩ := Dict.mem_keys_iff.mp (h.keys.mem_iff.mpr hJob)
    exact ⟨entry, hGet, h.expected job entry hGet⟩
  rw [hStatus]
  constructor
  · intro hNone job hJob
    obtain ⟨entry, hGet, hExpects⟩ := hEntry job hJob
    have hExecuted := JobGraph.all_succeed hNone hJob
    have hSucceeds : (outcome job).Succeeds := by
      by_contra hFails
      exact hNone ⟨job, hExecuted, hFails⟩
    rw [hGet, Option.map_some, (hExpects.executed hExecuted).status,
      Outcome.status_eq_succeeded.mpr hSucceeds]
  · rintro hAll ⟨job, hExecuted, hFails⟩
    obtain ⟨entry, hGet, hExpects⟩ := hEntry job hExecuted.mem_keys
    have hShown := hAll job hExecuted.mem_keys
    rw [hGet, Option.map_some, (hExpects.executed hExecuted).status, Option.some_inj,
      Outcome.status_eq_succeeded] at hShown
    exact hFails hShown

/-! ## Whole runs -/

/-- What the scheduler makes of an acyclic graph before the first level. -/
structure Planned (g : JobGraph) (pipeline : PipelineConfig) (scheduler : DAGScheduler)
    (plan : List (List String)) : Prop where
  jobs_eq : pipeline.jobs = g.jobs
  plans : Plans pipeline scheduler plan
  built : scheduler.Built g.jobs
  statuses : scheduler.jobStatuses.entries = g.jobs.keys.map fun job => (job, .queued)
  levels : Levels g.jobs [] plan

theorem exists_planned (hJobs : pipeline.jobs = g.jobs) :
    ∃ scheduler plan, Planned g pipeline scheduler plan := by
  obtain ⟨scheduler, hNew, hBuilt, hStatuses⟩ := DAGScheduler.new_ok g.known g.acyclic
  obtain ⟨plan, hPlan, hLevels⟩ := getExecutionPlan_ok hBuilt g.known g.acyclic
  exact ⟨scheduler, plan, hJobs, ⟨by rw [hJobs]; exact hNew, hPlan⟩, hBuilt, hStatuses, hLevels⟩

theorem Planned.unique {scheduler scheduler' : DAGScheduler} {plan' : List (List String)}
    (h : Planned g pipeline scheduler plan) (h' : Plans pipeline scheduler' plan') :
    scheduler' = scheduler ∧ plan' = plan := by
  cases h.plans.1.symm.trans h'.1
  cases h.plans.2.symm.trans h'.2
  exact ⟨rfl, rfl⟩

theorem DAGScheduler.needsKnown {jobs : JobsConfig} {scheduler : DAGScheduler}
    (h : DAGScheduler.new jobs = .ok scheduler) : NeedsKnown jobs := by
  cases hBuild : buildGraph jobs with
  | error exc => simp [DAGScheduler.new, hBuild, bind, Except.bind] at h
  | ok graph => exact needsKnown_of_buildGraph hBuild

theorem Plans.planned {scheduler : DAGScheduler} (hKnown : NeedsKnown pipeline.jobs)
    (h : Plans pipeline scheduler plan) : ∃ g : JobGraph, Planned g pipeline scheduler plan := by
  have hAcyclic := DAGScheduler.new_acyclic hKnown h.1
  obtain ⟨scheduler', plan', hPlanned⟩ := exists_planned (g := ⟨pipeline.jobs, hKnown, hAcyclic⟩) rfl
  obtain ⟨rfl, rfl⟩ := hPlanned.unique h
  exact ⟨_, hPlanned⟩

theorem Planned.nodup {scheduler : DAGScheduler} (h : Planned g pipeline scheduler plan) :
    ∀ level ∈ plan, level.Nodup := by
  have hAll := h.levels.perm.nodup_iff.mpr g.jobs.nodup
  exact fun level hLevel => (List.nodup_flatten.mp hAll).1 level hLevel

theorem Plans.exists_planned {scheduler : DAGScheduler} (h : Plans pipeline scheduler plan) :
    ∃ g : JobGraph, Planned g pipeline scheduler plan := h.planned (DAGScheduler.needsKnown h.1)

theorem Plans.nodup (scheduler : DAGScheduler) (plan : List (List String))
    (h : Plans pipeline scheduler plan) : ∀ level ∈ plan, level.Nodup := by
  obtain ⟨g, hPlanned⟩ := h.exists_planned
  exact hPlanned.nodup

structure RunInv (g : JobGraph) (outcome : String → Outcome) (plan : List (List String))
    (s : Execution) : Prop where
  phase : Phase g outcome plan s
  workers : ∀ job worker, s.futures.get? job = some worker → worker.Agrees (outcome job)

theorem RunInv.worked {job : String} {worker worker' : Worker} {action : Action}
    (h : RunInv g outcome plan s) (hWorker : s.futures.get? job = some worker)
    (hWorks : Works host pipeline s.run.lockfile job worker action worker')
    (hAgrees : ActionAgrees (outcome job) (some worker) action) :
    RunInv g outcome plan (s.worked job worker action worker') := by
  have hKeys := Dict.keys_set_of_get? worker' hWorker
  constructor
  · have hPhase := h.phase
    simp only [Phase, Execution.worked] at hPhase ⊢
    split at hPhase
    · exact hPhase
    · exact hPhase
    · obtain ⟨done, pre, hAt⟩ := hPhase
      exact ⟨done, pre, hAt.split, hAt.tally, hAt.covers, hAt.passed⟩
    · obtain ⟨done, pre, sub, hAt⟩ := hPhase
      refine ⟨done, pre, sub, hAt.split, hAt.tally, hAt.covers, hAt.passed, ⟨?_, hAt.submitted.others⟩,
        hAt.collected⟩
      rw [hKeys]
      exact hAt.submitted.keys
    · obtain ⟨done, pre, level, hAt⟩ := hPhase
      refine ⟨done, pre, level, hAt.split, hAt.tally, hAt.covers, hAt.passed,
        ⟨?_, hAt.submitted.others⟩, ?_⟩
      · rw [hKeys]
        exact hAt.submitted.keys
      · rw [hKeys]
        exact hAt.collected
    · exact hPhase
    · exact hPhase
  · intro j other hGet
    rw [Execution.worked, Dict.get?_set] at hGet
    split at hGet
    · rename_i hSame
      cases hGet
      subst hSame
      exact hWorks.agrees hAgrees (h.workers j worker hWorker)
    · exact h.workers j other hGet

/-- A step of the main thread that leaves the pool as it is. -/
theorem RunInv.of_phase (h : RunInv g outcome plan s) (hFutures : t.futures = s.futures)
    (hPhase : Phase g outcome plan t) : RunInv g outcome plan t :=
  ⟨hPhase, by rw [hFutures]; exact h.workers⟩

theorem RunInv.collected {scheduler : DAGScheduler} {rest : List (List String)}
    {integrityFailed : Bool} {job : String} {worker : Worker} (h : RunInv g outcome plan s)
    (hMain : s.main = .collecting scheduler rest integrityFailed)
    (hWorker : s.futures.get? job = some worker)
    (hCollect : ∀ done pre level, AtCollecting g outcome plan s scheduler rest integrityFailed done pre level →
      g.Executed outcome job → worker.Agrees (outcome job) →
      t.futures = s.futures ∧ ∃ scheduler' integrityFailed',
        t.main = .collecting scheduler' rest integrityFailed' ∧
        AtCollecting g outcome plan t scheduler' rest integrityFailed' done pre level) :
    RunInv g outcome plan t := by
  have hPhase := h.phase
  rw [Phase, hMain] at hPhase
  obtain ⟨done, pre, level, hAt⟩ := hPhase
  have hFuture := Dict.mem_keys_of_get? hWorker
  have hExecuted := ((hAt.submitted.keys job).mp hFuture).2
  obtain ⟨hFutures, scheduler', integrityFailed', hMain', hAt'⟩ :=
    hCollect done pre level hAt hExecuted (h.workers job worker hWorker)
  apply h.of_phase hFutures
  rw [Phase, hMain']
  exact ⟨done, pre, level, hAt'⟩

theorem RunInv.moves {scheduler₀ : DAGScheduler} {lockfile₀ : Lockfile} {e : Event}
    (hPlanned : Planned g pipeline scheduler₀ plan) (hResolves₀ : Resolves registry pipeline lockfile₀)
    (h : RunInv g outcome plan s) (hMove : Moves host registry pipeline s e t)
    (hAgrees : Agrees host outcome s e) : RunInv g outcome plan t := by
  have hPhase := h.phase
  have hLevels := hPlanned.levels
  cases hMove with
  | resolved lockfile hMain hResolves =>
    rw [Phase, hMain] at hPhase
    exact h.of_phase rfl hPhase
  | unresolved t hMain hNot hStops => exact absurd hResolves₀ (hNot lockfile₀)
  | planned scheduler plan' hMain hPlans =>
    rw [Phase, hMain] at hPhase
    obtain ⟨rfl, rfl⟩ := hPlanned.unique hPlans
    exact h.of_phase rfl ⟨[], [], AtLevels.first hPlanned.built hPlanned.statuses hPhase⟩
  | unplanned t hMain hNot hStops => exact absurd hPlanned.plans (hNot scheduler₀ plan)
  | skippedLevel scheduler level rest hMain =>
    rw [Phase, hMain] at hPhase
    obtain ⟨done, pre, hAt⟩ := hPhase
    exact h.of_phase rfl ⟨done, pre ++ [level], hAt.skipLevel hLevels rfl⟩
  | refusedPool scheduler level rest hMain hLimit =>
    have hPositive : 0 < host.concurrencyLimit := hAgrees
    omega
  | openedPool scheduler level rest hMain hLimit =>
    rw [Phase, hMain] at hPhase
    obtain ⟨done, pre, hAt⟩ := hPhase
    exact ⟨⟨done, pre, [], hAt.openPool⟩, fun job worker hGet => by cases hGet⟩
  | submittedSkipped scheduler job todo rest hMain hSkipped =>
    rw [Phase, hMain] at hPhase
    obtain ⟨done, pre, sub, hAt⟩ := hPhase
    exact h.of_phase rfl ⟨done, pre, sub ++ [job], hAt.skip hLevels hSkipped⟩
  | submittedUnknown scheduler job todo rest hMain hUnknown =>
    rw [Phase, hMain] at hPhase
    obtain ⟨done, pre, sub, hAt⟩ := hPhase
    rw [hPlanned.jobs_eq] at hUnknown
    exact absurd (hAt.skipped_iff hLevels).1 hUnknown
  | submitted scheduler job todo rest hMain hNot hJob =>
    rw [Phase, hMain] at hPhase
    obtain ⟨done, pre, sub, hAt⟩ := hPhase
    refine ⟨⟨done, pre, sub ++ [job], hAt.submit hLevels hNot⟩, ?_⟩
    intro j worker hGet
    rw [Dict.get?_set] at hGet
    split at hGet
    · cases hGet
      trivial
    · exact h.workers j worker hGet
  | submittedAll scheduler rest hMain =>
    rw [Phase, hMain] at hPhase
    obtain ⟨done, pre, sub, hAt⟩ := hPhase
    exact h.of_phase rfl ⟨done, pre, sub, hAt.collecting⟩
  | worked job worker worker' action hWorker hPool hWorks =>
    apply h.worked hWorker hWorks
    rw [← hWorker]
    exact hAgrees
  | collectedResult scheduler rest integrityFailed job result published hMain hFresh hWorker =>
    apply h.collected hMain hWorker
    intro done pre level hAt hExecuted hOutcome
    obtain ⟨scheduler', jobs', hCollect, hTally, hGrow⟩ :=
      Tally.collectResult (s := { s with collected := job :: s.collected }) rest published hAt.tally
        hExecuted hOutcome
    rw [hCollect]
    exact ⟨rfl, scheduler', integrityFailed, rfl,
      hAt.collect (Dict.mem_keys_of_get? hWorker) hTally hGrow rfl rfl rfl⟩
  | collectedIntegrityError scheduler rest integrityFailed job name version expected actual hMain
      hFresh hWorker =>
    apply h.collected hMain hWorker
    intro done pre level hAt hExecuted hOutcome
    obtain ⟨scheduler', jobs', hCollect, hTally, hGrow⟩ :=
      Tally.collectIntegrityError (s := { s with collected := job :: s.collected }) rest hAt.tally
        hExecuted hOutcome
    rw [hCollect]
    exact ⟨rfl, scheduler', true, rfl,
      hAt.collect (Dict.mem_keys_of_get? hWorker) hTally hGrow rfl rfl rfl⟩
  | collectedException scheduler rest integrityFailed job message hMain hFresh hWorker =>
    exact (h.workers job _ hWorker).elim
  | closedPool scheduler rest integrityFailed hMain hAll =>
    rw [Phase, hMain] at hPhase
    obtain ⟨done, pre, level, hAt⟩ := hPhase
    exact h.of_phase rfl ⟨s.collected ++ done, pre ++ [level], hAt.close hLevels hAll⟩
  | aborted error hMain hIdle =>
    rw [Phase, hMain] at hPhase
    exact hPhase.elim
  | finished scheduler integrityFailed now hMain =>
    rw [Phase, hMain] at hPhase
    obtain ⟨done, pre, hAt⟩ := hPhase
    exact h.of_phase rfl (hAt.finish hLevels now)
  | interrupted message hEnded hAborting => exact (show False from hAgrees).elim

theorem runInv_initial : RunInv g outcome plan .initial :=
  ⟨rfl, fun job worker hGet => by cases hGet⟩

theorem run_inv {scheduler : DAGScheduler} {lockfile : Lockfile} {events : List Event}
    (hPlanned : Planned g pipeline scheduler plan) (hResolves : Resolves registry pipeline lockfile)
    (hRun : Run (restrict (Execution.Step host registry pipeline) (Agrees host outcome)) .initial events s) :
    RunInv g outcome plan s := by
  have hKeeps := hRun.invariant fun s e t (h : RunInv g outcome plan s) hStep =>
    h.moves hPlanned hResolves hStep.1.moves hStep.2
  exact hKeeps runInv_initial

/-- The end of every run in which the jobs do what `outcome` says: one entry for each job, all of them
as expected, and the status that follows from the executed jobs. -/
theorem execution_result {lockfile : Lockfile} {events : List Event} (hJobs : pipeline.jobs = g.jobs)
    (hResolves : Resolves registry pipeline lockfile)
    (hRun : Run (restrict (Execution.Step host registry pipeline) (Agrees host outcome)) .initial events s)
    (hEnded : s.main = .ended) :
    Result g outcome s.run ∧ (s.run.status = .succeeded ↔
      ∀ job ∈ pipeline.jobs.keys, (s.run.jobs.get? job).map JobEntry.status = some (.job .succeeded)) := by
  obtain ⟨scheduler, plan, hPlanned⟩ := exists_planned hJobs
  have hPhase := (run_inv hPlanned hResolves hRun).phase
  rw [Phase, hEnded] at hPhase
  exact ⟨hPhase, by rw [hJobs]; exact hPhase.succeeded_iff_all⟩

/-! ## A run of four jobs -/

/-- A check of `Agrees` that needs no state; it passes no pull. -/
def Event.plain (outcome : String → Outcome) : Event → Bool
  | .work _ (.pull _ _) => false
  | .work job (.exit exitCode) => outcome job = .finished exitCode
  | .work _ (.handle statusCode _) => decide (Created statusCode)
  | .work _ (.raise _) => false
  | .interrupt _ => false
  | _ => true

theorem agrees_of_plain {host : Host} (hLimit : 0 < host.concurrencyLimit) {outcome : String → Outcome}
    (s : Execution) {e : Event} (h : e.plain outcome = true) : Agrees host outcome s e := by
  cases e with
  | enterLevel => exact hLimit
  | work job action =>
    cases action with
    | pull statusCode content => cases h
    | raise message => cases h
    | exit exitCode =>
      have hExit : outcome job = .finished exitCode := of_decide_eq_true h
      exact hExit
    | handle statusCode text =>
      have hCreated : Created statusCode := of_decide_eq_true h
      exact hCreated
    | _ => trivial
  | interrupt message => cases h
  | _ => trivial

def exampleHost : Host := ⟨2, fun _ => true, fun _ => true⟩

def emptyRegistry : RegistryClient := InMemoryRegistry.client .empty

def releaseJobs : JobsConfig :=
  .ofList [("build", { steps := [⟨"compile", "make"⟩] }),
    ("lint", { steps := [⟨"lint", "make lint"⟩] }),
    ("test", { steps := [⟨"test", "make test"⟩], needs := ["build"] }),
    ("deploy", { steps := [⟨"deploy", "make deploy"⟩], needs := ["test", "lint"] })]

def releasePipeline (artifacts : List PipelineArtifact) : PipelineConfig :=
  ⟨"release", "1.0.0", [], releaseJobs, artifacts⟩

def releaseRank (job : String) : ℕ := ["build", "lint", "test", "deploy"].idxOf job

theorem releaseJobs_needs : ∀ job dep, Needs releaseJobs job dep →
    dep ∈ releaseJobs.keys ∧ releaseRank dep < releaseRank job := by
  intro job dep hNeeds
  have hJob : job ∈ ["build", "lint", "test", "deploy"] := hNeeds.mem_keys
  have hAll : ∀ job ∈ ["build", "lint", "test", "deploy"], ∀ dep ∈ needsOf releaseJobs job,
      dep ∈ releaseJobs.keys ∧ releaseRank dep < releaseRank job := by decide
  exact hAll job hJob dep hNeeds

def releaseGraph : JobGraph where
  jobs := releaseJobs
  known job dep hNeeds := (releaseJobs_needs job dep hNeeds).1
  acyclic := .of_rank releaseRank fun job dep hNeeds => (releaseJobs_needs job dep hNeeds).2

/-- The tests fail. -/
def releaseOutcome (job : String) : Outcome := .finished (if job = "test" then 2 else 0)

/-- `lint` ends before `build`, and `deploy` is skipped. -/
def releaseEvents : List Event :=
  [.resolve, .plan, .enterLevel, .submit, .submit, .submit, .work "build" .start, .work "lint" .start,
    .work "lint" .launch, .work "build" .launch, .work "lint" (.exit 0), .work "lint" .finish,
    .collect "lint", .work "build" (.exit 0), .work "build" .finish, .collect "build", .closePool,
    .enterLevel, .submit, .submit, .work "test" .start, .work "test" .launch, .work "test" (.exit 2),
    .collect "test", .closePool, .enterLevel, .submit, .submit, .closePool, .finish "2024-05-01"]

theorem release_run : ∃ s, Run (restrict (Execution.Step exampleHost emptyRegistry (releasePipeline []))
    (Agrees exampleHost releaseOutcome)) .initial releaseEvents s ∧ s.main = .ended := by
  have hRun : ∃ s, Run (Execution.Step exampleHost emptyRegistry (releasePipeline [])) .initial
      releaseEvents s ∧ s.main = .ended := ⟨_, run_stepsOf_iff.mpr rfl, rfl⟩
  obtain ⟨s, hRun, hEnded⟩ := hRun
  have hPlain : ∀ e ∈ releaseEvents, e.plain releaseOutcome = true := by decide
  exact ⟨s, hRun.restrict_of_forall fun e he u => agrees_of_plain (by decide) u (hPlain e he), hEnded⟩

theorem execution_result_release : ∃ s : Execution, s.main = .ended ∧
    Result releaseGraph releaseOutcome s.run ∧ (s.run.status = .succeeded ↔
      ∀ job ∈ (releasePipeline []).jobs.keys,
        (s.run.jobs.get? job).map JobEntry.status = some (.job .succeeded)) := by
  obtain ⟨s, hRun, hEnded⟩ := release_run
  have hResolves : Resolves emptyRegistry (releasePipeline []) ⟨[]⟩ := rfl
  have hJobs : (releasePipeline []).jobs = releaseGraph.jobs := rfl
  exact ⟨s, hEnded, execution_result hJobs hResolves hRun hEnded⟩

end Forge.Engine
