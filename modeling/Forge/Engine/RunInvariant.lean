import Forge.Engine.Bookkeeping
import Forge.Engine.ExecutionSteps

/-! # The invariant of a run

For runs whose jobs do what `outcome` says, and in which nothing else goes wrong: which jobs have been
collected, submitted and passed over in each phase of the main thread, whatever the order in which the
workers of a level advance and their results are collected.
-/
namespace Forge.Engine
open Forge.Python Forge.Registry Forge.Theory Relation
set_option autoImplicit false

/-! ## Runs that agree with outcomes -/

def ActionAgrees (outcome : Outcome) (worker : Option Worker) : Action → Prop
  | .pull statusCode content => statusCode = 200 ∧ ∀ dep rest, worker = some (.pulling (dep :: rest)) →
      sha256 content ≠ dep.2.sha256 → outcome = .integrityFailure
  | .exit exitCode => outcome = .finished exitCode
  | .handle statusCode _ => Created statusCode
  | .raise _ => False
  | _ => True

/-- A job pulls and exits as its outcome says; every other request succeeds, and nothing raises. -/
def Agrees (host : Host) (outcome : String → Outcome) (s : Execution) : Event → Prop
  | .enterLevel => 0 < host.concurrencyLimit
  | .work job action => ActionAgrees (outcome job) (s.futures.get? job) action
  | .interrupt _ => False
  | _ => True

def Worker.Agrees (outcome : Outcome) : Worker → Prop
  | .walking _ _ => outcome.Succeeds
  | .posting _ _ _ _ => outcome.Succeeds
  | .answered _ _ statusCode _ _ _ => Created statusCode ∧ outcome.Succeeds
  | .returned result _ => outcome = .finished result.exitCode
  | .raised (.integrityError _ _ _ _) => outcome = .integrityFailure
  | .raised (.exception _) => False
  | _ => True

theorem Works.agrees {host : Host} {pipeline : PipelineConfig} {lockfile : Option Lockfile}
    {job : String} {worker worker' : Worker} {action : Action} {outcome : Outcome}
    (h : Works host pipeline lockfile job worker action worker')
    (hAction : ActionAgrees outcome (some worker) action) (hWorker : worker.Agrees outcome) :
    worker'.Agrees outcome := by
  cases h with
  | started => trivial
  | pulled dep rest content hSha => trivial
  | mismatched dep rest content hSha => exact hAction.2 dep rest rfl hSha
  | refused dep rest statusCode content message hStatus => exact hStatus hAction.1
  | launched hRun => trivial
  | succeeded => exact hAction
  | failed exitCode hExit => exact hAction
  | absent artifact rest published => exact hWorker
  | found artifact rest published data hHold => exact hWorker
  | handled artifact data rest published statusCode text => exact ⟨hAction, hWorker⟩
  | created artifact data statusCode text rest published hStatus => exact hWorker.2
  | rejected artifact data statusCode text rest published message hStatus =>
    exact hStatus hWorker.1
  | finished published => exact hWorker
  | raised worker message hActive => exact hAction

/-! ## Statuses of outcomes -/

/-- A nonzero exit code. -/
def Outcome.Fails (outcome : Outcome) : Prop := ∃ exitCode, exitCode ≠ 0 ∧ outcome = .finished exitCode

theorem Outcome.succeeds_finished {exitCode : Int} :
    (Outcome.finished exitCode).Succeeds ↔ exitCode = 0 := by
  simp [Outcome.Succeeds]

theorem JobResult.status_eq_failed {result : JobResult} :
    result.status = .failed ↔ result.exitCode ≠ 0 := by
  unfold JobResult.status
  split <;> simp_all

theorem JobResult.status_eq_succeeded {result : JobResult} :
    result.status = .succeeded ↔ result.exitCode = 0 := by
  unfold JobResult.status
  split <;> simp_all

theorem Outcome.status_eq_integrityFailure {outcome : Outcome} :
    outcome.status = .integrityFailure ↔ outcome = .integrityFailure := by
  cases outcome <;> simp [Outcome.status]

theorem Outcome.status_eq_failed {outcome : Outcome} : outcome.status = .job .failed ↔ outcome.Fails := by
  cases outcome <;> simp [Outcome.status, Outcome.Fails, JobResult.status_eq_failed]

theorem Outcome.status_eq_succeeded {outcome : Outcome} :
    outcome.status = .job .succeeded ↔ outcome.Succeeds := by
  cases outcome <;> simp [Outcome.status, Outcome.Succeeds, JobResult.status_eq_succeeded]

/-! ## Collecting -/

variable {g : JobGraph} {outcome : String → Outcome} {done : List String} {scheduler : DAGScheduler}
  {integrityFailed : Bool} {jobs : Dict String JobEntry} {job : String}

/-- Both records agree with the jobs collected so far, and so does the flag. -/
structure Tally (g : JobGraph) (outcome : String → Outcome) (done : List String)
    (scheduler : DAGScheduler) (integrityFailed : Bool) (jobs : Dict String JobEntry) : Prop where
  tracks : Tracks g outcome done scheduler
  shows : Shows g outcome done jobs
  integrity : integrityFailed = true ↔ ∃ d ∈ done, outcome d = .integrityFailure

theorem Tally.no_integrityFailure (h : Tally g outcome done scheduler false jobs) :
    ∀ d ∈ done, outcome d ≠ .integrityFailure := by
  intro d hd hBad
  have hFlag := h.integrity.mpr ⟨d, hd, hBad⟩
  cases hFlag

theorem Tally.collectResult {s : Execution} (rest : List (List String)) {result : JobResult}
    (published : List PublishedArtifact)
    (h : Tally g outcome done scheduler integrityFailed s.run.jobs) (hJob : g.Executed outcome job)
    (hOutcome : outcome job = .finished result.exitCode) :
    ∃ scheduler' jobs', s.collectResult scheduler rest integrityFailed job result published =
        { s with run := { s.run with jobs := jobs' }
                 main := .collecting scheduler' rest integrityFailed } ∧
      Tally g outcome (job :: done) scheduler' integrityFailed jobs' ∧
      s.run.jobs.keys ⊆ jobs'.keys := by
  have hEntry : JobEntry.Shows ⟨.job result.status, some result.exitCode, some published⟩ (outcome job) := by
    rw [hOutcome]
    exact ⟨rfl, rfl⟩
  have hShows := h.shows.executed hJob hEntry
  have hIntegrity : integrityFailed = true ↔ ∃ d ∈ job :: done, outcome d = .integrityFailure := by
    rw [h.integrity]
    simp [hOutcome]
  have hGrow : s.run.jobs.keys ⊆ (s.run.jobs.set job
      ⟨.job result.status, some result.exitCode, some published⟩).keys :=
    fun j hj => Dict.mem_keys_set.mpr (.inr hj)
  simp only [Execution.collectResult]
  by_cases hExit : result.exitCode = 0
  · have hStatus := JobResult.status_eq_succeeded.mpr hExit
    have hSucceeds : (outcome job).Succeeds := by
      rw [hOutcome, Outcome.succeeds_finished]
      exact hExit
    have hTracks := h.tracks.succeed hJob hSucceeds
    rw [hStatus] at hShows hGrow ⊢
    exact ⟨_, _, rfl, ⟨hTracks, hShows.copySkipped hTracks, hIntegrity⟩,
      List.Subset.trans hGrow (subset_keys_copySkipped _ _)⟩
  · have hStatus := JobResult.status_eq_failed.mpr hExit
    have hFails : ¬ (outcome job).Succeeds := by
      rw [hOutcome, Outcome.succeeds_finished]
      exact hExit
    obtain ⟨scheduler', hMark, hTracks⟩ := h.tracks.mark hJob hFails
      (updateJobStatus_built h.tracks.built job .failed)
      (updateJobStatus_keys h.tracks.keys hJob.mem_keys .failed)
      (fun j hj => by rw [updateJobStatus_getJobStatus, if_neg hj])
    rw [hStatus] at hShows hGrow ⊢
    simp only [if_true, hMark]
    exact ⟨_, _, rfl, ⟨hTracks, hShows.copySkipped hTracks, hIntegrity⟩,
      List.Subset.trans hGrow (subset_keys_copySkipped _ _)⟩

theorem Tally.collectIntegrityError {s : Execution} (rest : List (List String))
    (h : Tally g outcome done scheduler integrityFailed s.run.jobs) (hJob : g.Executed outcome job)
    (hOutcome : outcome job = .integrityFailure) :
    ∃ scheduler' jobs', s.collectIntegrityError scheduler rest job =
        { s with run := { s.run with jobs := jobs' }, main := .collecting scheduler' rest true } ∧
      Tally g outcome (job :: done) scheduler' true jobs' ∧ s.run.jobs.keys ⊆ jobs'.keys := by
  have hFails : ¬ (outcome job).Succeeds := by
    rw [hOutcome]
    intro hEq
    cases hEq
  have hEntry : integrityEntry.Shows (outcome job) := by
    rw [hOutcome]
    exact ⟨rfl, rfl⟩
  obtain ⟨scheduler', hMark, hTracks⟩ := h.tracks.mark hJob hFails h.tracks.built h.tracks.keys
    (fun _ _ => rfl)
  simp only [Execution.collectIntegrityError, hMark]
  refine ⟨_, _, rfl, ⟨hTracks, h.shows.executed hJob hEntry, ?_⟩, ?_⟩
  · simp [hOutcome]
  · exact fun j hj => Dict.mem_keys_set.mpr (.inr hj)

/-! ## The invariant -/

/-- Every job below level `n` has an entry. -/
def Passed (g : JobGraph) (n : ℕ) (jobs : Dict String JobEntry) : Prop :=
  ∀ j ∈ g.jobs.keys, g.level j < n → j ∈ jobs.keys

/-- The part of a level that has been submitted: its executed jobs are in the pool, the others have
their entries. -/
structure Submitted (g : JobGraph) (outcome : String → Outcome) (level : List String)
    (futures : Dict String Worker) (jobs : Dict String JobEntry) : Prop where
  keys : ∀ j, j ∈ futures.keys ↔ j ∈ level ∧ g.Executed outcome j
  others : ∀ j ∈ level, ¬ g.Executed outcome j → j ∈ jobs.keys

/-- What the run leaves behind. -/
structure Result (g : JobGraph) (outcome : String → Outcome) (run : RunState) : Prop where
  keys : run.jobs.keys.Perm g.jobs.keys
  expected : ∀ j entry, run.jobs.get? j = some entry → g.Expects outcome j entry
  integrityFailure : run.status = .integrityFailure ↔
    ∃ j, g.Executed outcome j ∧ outcome j = .integrityFailure
  failed : run.status = .failed ↔ (¬ ∃ j, g.Executed outcome j ∧ outcome j = .integrityFailure) ∧
    ∃ j, g.Executed outcome j ∧ (outcome j).Fails
  succeeded : run.status = .succeeded ↔
    (¬ ∃ j, g.Executed outcome j ∧ outcome j = .integrityFailure) ∧
      ¬ ∃ j, g.Executed outcome j ∧ (outcome j).Fails

/-- Between two levels: the levels in `pre` have been passed. -/
structure AtLevels (g : JobGraph) (outcome : String → Outcome) (plan : List (List String))
    (s : Execution) (scheduler : DAGScheduler) (rest : List (List String)) (integrityFailed : Bool)
    (done : List String) (pre : List (List String)) : Prop where
  split : plan = pre ++ rest
  tally : Tally g outcome done scheduler integrityFailed s.run.jobs
  covers : Covers g outcome done pre.length
  passed : Passed g pre.length s.run.jobs

/-- In the loop that submits a level, of which `sub` has been submitted. -/
structure AtSubmitting (g : JobGraph) (outcome : String → Outcome) (plan : List (List String))
    (s : Execution) (scheduler : DAGScheduler) (todo : List String) (rest : List (List String))
    (done : List String) (pre : List (List String)) (sub : List String) : Prop where
  split : plan = pre ++ (sub ++ todo) :: rest
  tally : Tally g outcome done scheduler false s.run.jobs
  covers : Covers g outcome done pre.length
  passed : Passed g pre.length s.run.jobs
  submitted : Submitted g outcome sub s.futures s.run.jobs
  collected : s.collected = []

/-- In the loop over the results of `level`. -/
structure AtCollecting (g : JobGraph) (outcome : String → Outcome) (plan : List (List String))
    (s : Execution) (scheduler : DAGScheduler) (rest : List (List String)) (integrityFailed : Bool)
    (done : List String) (pre : List (List String)) (level : List String) : Prop where
  split : plan = pre ++ level :: rest
  tally : Tally g outcome (s.collected ++ done) scheduler integrityFailed s.run.jobs
  covers : Covers g outcome done pre.length
  passed : Passed g pre.length s.run.jobs
  submitted : Submitted g outcome level s.futures s.run.jobs
  collected : ∀ j ∈ s.collected, j ∈ s.futures.keys

def Phase (g : JobGraph) (outcome : String → Outcome) (plan : List (List String)) (s : Execution) :
    Prop :=
  match s.main with
  | .queued => s.run.jobs = .empty
  | .resolved => s.run.jobs = .empty
  | .levels scheduler rest integrityFailed =>
    ∃ done pre, AtLevels g outcome plan s scheduler rest integrityFailed done pre
  | .submitting scheduler todo rest =>
    ∃ done pre sub, AtSubmitting g outcome plan s scheduler todo rest done pre sub
  | .collecting scheduler rest integrityFailed =>
    ∃ done pre level, AtCollecting g outcome plan s scheduler rest integrityFailed done pre level
  | .aborting _ => False
  | .ended => Result g outcome s.run

/-! ## The steps of the main thread -/

variable {plan pre rest : List (List String)} {level sub todo : List String} {s : Execution}

theorem Passed.mono {n : ℕ} {jobs jobs' : Dict String JobEntry} (h : Passed g n jobs)
    (hGrow : jobs.keys ⊆ jobs'.keys) : Passed g n jobs' :=
  fun j hJob hLevel => hGrow (h j hJob hLevel)

theorem AtLevels.first (hBuilt : scheduler.Built g.jobs)
    (hStatuses : scheduler.jobStatuses.entries = g.jobs.keys.map fun job => (job, .queued))
    (hJobs : s.run.jobs = .empty) : AtLevels g outcome plan s scheduler plan false [] [] := by
  have hQueued := getJobStatus_of_queued hStatuses
  refine ⟨rfl, ⟨⟨hBuilt, ?_, ?_, ?_, ?_⟩, ⟨?_, ?_⟩, ?_⟩, ⟨?_, ?_⟩, ?_⟩
  · exact keys_of_queued hStatuses
  · simp
  · simp [hQueued]
  · simp [hQueued]
  · simp
  · simp [hJobs]
  · simp
  · simp
  · simp
  · intro j _ hLevel
    simp at hLevel

theorem AtLevels.skipLevel (hPlan : Levels g.jobs [] plan) {done : List String}
    (h : AtLevels g outcome plan s scheduler (level :: rest) true done pre) {t : Execution}
    (hJobs : t.run.jobs = level.foldl setSkipped s.run.jobs) :
    AtLevels g outcome plan t scheduler rest true done (pre ++ [level]) := by
  obtain ⟨d, hd, hBad⟩ := h.tally.integrity.mp rfl
  have hMem := fun j => hPlan.mem_level_iff h.split j
  have hNot : ∀ j ∈ level, ¬ g.Executed outcome j := by
    intro j hj hExecuted
    have hBelow := h.covers.below d hd
    rw [← ((hMem j).mp hj).2] at hBelow
    exact hExecuted.no_integrityFailure hBelow (h.tally.tracks.executed d hd) hBad
  have hShows : Shows g outcome done t.run.jobs := by
    rw [hJobs]
    exact h.tally.shows.foldl_setSkipped fun j hj => ⟨((hMem j).mp hj).1, hNot j hj⟩
  refine ⟨by simp [h.split], ⟨h.tally.tracks, hShows, h.tally.integrity⟩, ⟨?_, ?_⟩, ?_⟩
  · intro d hd
    have hBelow := h.covers.below d hd
    rw [List.length_append]
    omega
  · intro j hExecuted hLevel
    rw [List.length_append, List.length_singleton] at hLevel
    apply h.covers.complete j hExecuted
    have hNe : g.level j ≠ pre.length := fun hEq =>
      hNot j ((hMem j).mpr ⟨hExecuted.mem_keys, hEq⟩) hExecuted
    omega
  · intro j hJob hLevel
    rw [List.length_append, List.length_singleton] at hLevel
    rw [hJobs, mem_keys_foldl_setSkipped, hMem j]
    by_cases hBelow : g.level j < pre.length
    · exact .inr (h.passed j hJob hBelow)
    · exact .inl ⟨hJob, by omega⟩

theorem AtLevels.openPool {done : List String}
    (h : AtLevels g outcome plan s scheduler (level :: rest) false done pre) :
    AtSubmitting g outcome plan
      { s with main := .submitting scheduler level rest, futures := .empty, collected := [] }
      scheduler level rest done pre [] :=
  ⟨h.split, h.tally, h.covers, h.passed, ⟨by simp, by simp⟩, rfl⟩

section
variable {done : List String}

theorem AtSubmitting.skipped_iff (hPlan : Levels g.jobs [] plan)
    (h : AtSubmitting g outcome plan s scheduler (job :: todo) rest done pre sub) :
    job ∈ g.jobs.keys ∧
      (scheduler.getJobStatus job = .skipped ↔ ¬ g.Executed outcome job) := by
  obtain ⟨hJob, hLevel⟩ := (hPlan.mem_level_iff h.split job).mp (by simp)
  exact ⟨hJob, h.tally.tracks.skipped_iff h.covers h.tally.no_integrityFailure hJob hLevel⟩

theorem AtSubmitting.skip (hPlan : Levels g.jobs [] plan)
    (h : AtSubmitting g outcome plan s scheduler (job :: todo) rest done pre sub)
    (hSkipped : scheduler.getJobStatus job = .skipped) :
    AtSubmitting g outcome plan
      { s with run := { s.run with jobs := s.run.jobs.set job skippedEntry }
               main := .submitting scheduler todo rest }
      scheduler todo rest done pre (sub ++ [job]) := by
  obtain ⟨hJob, hIff⟩ := h.skipped_iff hPlan
  have hNot := hIff.mp hSkipped
  have hGrow : s.run.jobs.keys ⊆ (s.run.jobs.set job skippedEntry).keys :=
    fun j hj => Dict.mem_keys_set.mpr (.inr hj)
  refine ⟨by simp [h.split], ⟨h.tally.tracks, h.tally.shows.skip hJob hNot, h.tally.integrity⟩,
    h.covers, h.passed.mono hGrow, ⟨?_, ?_⟩, h.collected⟩
  · intro j
    rw [h.submitted.keys j, List.mem_append, List.mem_singleton]
    constructor
    · exact fun ⟨hSub, hExecuted⟩ => ⟨.inl hSub, hExecuted⟩
    · rintro ⟨hSub | rfl, hExecuted⟩
      · exact ⟨hSub, hExecuted⟩
      · exact absurd hExecuted hNot
  · intro j hj hOther
    rcases List.mem_append.mp hj with hSub | hLast
    · exact hGrow (h.submitted.others j hSub hOther)
    · exact Dict.mem_keys_set.mpr (.inl (List.mem_singleton.mp hLast))

theorem AtSubmitting.submit (hPlan : Levels g.jobs [] plan)
    (h : AtSubmitting g outcome plan s scheduler (job :: todo) rest done pre sub)
    (hNot : scheduler.getJobStatus job ≠ .skipped) :
    AtSubmitting g outcome plan
      { s with main := .submitting scheduler todo rest, futures := s.futures.set job .queued }
      scheduler todo rest done pre (sub ++ [job]) := by
  obtain ⟨-, hIff⟩ := h.skipped_iff hPlan
  have hExecuted : g.Executed outcome job := by
    by_contra hOther
    exact hNot (hIff.mpr hOther)
  refine ⟨by simp [h.split], h.tally, h.covers, h.passed, ⟨?_, ?_⟩, h.collected⟩
  · intro j
    rw [Dict.mem_keys_set, h.submitted.keys j, List.mem_append, List.mem_singleton]
    constructor
    · rintro (rfl | ⟨hSub, hOther⟩)
      · exact ⟨.inr rfl, hExecuted⟩
      · exact ⟨.inl hSub, hOther⟩
    · rintro ⟨hSub | rfl, hOther⟩
      · exact .inr ⟨hSub, hOther⟩
      · exact .inl rfl
  · intro j hj hOther
    rcases List.mem_append.mp hj with hSub | hLast
    · exact h.submitted.others j hSub hOther
    · rw [List.mem_singleton.mp hLast] at hOther
      exact absurd hExecuted hOther

theorem AtSubmitting.collecting
    (h : AtSubmitting g outcome plan s scheduler [] rest done pre sub) :
    AtCollecting g outcome plan { s with main := .collecting scheduler rest false } scheduler rest
      false done pre sub := by
  have hTally : Tally g outcome (s.collected ++ done) scheduler false s.run.jobs := by
    rw [h.collected]
    exact h.tally
  refine ⟨by simpa using h.split, hTally, h.covers, h.passed, h.submitted, ?_⟩
  intro j hj
  rw [show s.collected = [] from h.collected] at hj
  cases hj

/-- Any collection of a job's result that keeps the tally. -/
theorem AtCollecting.collect {scheduler' : DAGScheduler} {integrityFailed' : Bool}
    {jobs' : Dict String JobEntry}
    (h : AtCollecting g outcome plan s scheduler rest integrityFailed done pre level)
    (hJob : job ∈ s.futures.keys)
    (hTally : Tally g outcome (job :: (s.collected ++ done)) scheduler' integrityFailed' jobs')
    (hGrow : s.run.jobs.keys ⊆ jobs'.keys) {t : Execution} (hFutures : t.futures = s.futures)
    (hCollected : t.collected = job :: s.collected) (hJobs : t.run.jobs = jobs') :
    AtCollecting g outcome plan t scheduler' rest integrityFailed' done pre level := by
  subst hJobs
  refine ⟨h.split, ?_, h.covers, h.passed.mono hGrow, ?_, ?_⟩
  · rw [hCollected]
    exact hTally
  · rw [hFutures]
    exact ⟨h.submitted.keys, fun j hj hNot => hGrow (h.submitted.others j hj hNot)⟩
  · intro j hj
    rw [hCollected] at hj
    rw [hFutures]
    rcases List.mem_cons.mp hj with rfl | hOld
    · exact hJob
    · exact h.collected j hOld

theorem AtCollecting.close (hPlan : Levels g.jobs [] plan)
    (h : AtCollecting g outcome plan s scheduler rest integrityFailed done pre level)
    (hAll : ∀ j ∈ s.futures.keys, j ∈ s.collected) :
    AtLevels g outcome plan { s with main := .levels scheduler rest integrityFailed } scheduler rest
      integrityFailed (s.collected ++ done) (pre ++ [level]) := by
  have hMem := fun j => hPlan.mem_level_iff h.split j
  refine ⟨by simp [h.split], h.tally, ⟨?_, ?_⟩, ?_⟩
  · intro d hd
    rw [List.length_append, List.length_singleton]
    rcases List.mem_append.mp hd with hNew | hOld
    · have hLevel := ((hMem d).mp ((h.submitted.keys d).mp (h.collected d hNew)).1).2
      omega
    · have hLevel := h.covers.below d hOld
      omega
  · intro j hExecuted hLevel
    rw [List.length_append, List.length_singleton] at hLevel
    apply List.mem_append.mpr
    by_cases hBelow : g.level j < pre.length
    · exact .inr (h.covers.complete j hExecuted hBelow)
    · have hHere := (hMem j).mpr ⟨hExecuted.mem_keys, by omega⟩
      exact .inl (hAll j ((h.submitted.keys j).mpr ⟨hHere, hExecuted⟩))
  · intro j hJob hLevel
    rw [List.length_append, List.length_singleton] at hLevel
    by_cases hBelow : g.level j < pre.length
    · exact h.passed j hJob hBelow
    · have hHere := (hMem j).mpr ⟨hJob, by omega⟩
      by_cases hExecuted : g.Executed outcome j
      · have hFuture := (h.submitted.keys j).mpr ⟨hHere, hExecuted⟩
        exact h.tally.shows.recorded j (List.mem_append_left done (hAll j hFuture))
      · exact h.submitted.others j hHere hExecuted

end
end Forge.Engine
