import Forge.Engine.Publishing
import Forge.Engine.RecordsRun

/-! # How a run ends

A run that is under way ends by itself, with a terminal status, a completion time and an entry for every
job, exactly when nothing in it raises an exception other than `IntegrityError`. The handler of all other
exceptions sets a status only.
-/
namespace Forge.Engine
open Forge.Python Forge.Registry Forge.Theory
set_option autoImplicit false

variable {host : Host} {registry : RegistryClient} {pipeline : PipelineConfig} {g : JobGraph}
  {plan : List (List String)} {events : List Event} {e : Event} {s t u : Execution}

/-- A step of a worker that does not lead to an exception other than `IntegrityError`. -/
def Action.Smooth : Action → Prop
  | .pull statusCode _ => statusCode = 200
  | .handle statusCode _ => Created statusCode
  | .raise _ => False
  | _ => True

def Event.Smooth (host : Host) : Event → Prop
  | .enterLevel => 0 < host.concurrencyLimit
  | .work _ action => action.Smooth
  | .interrupt _ => False
  | _ => True

theorem Works.fails_iff {lockfile : Option Lockfile} {job : String} {worker worker' : Worker}
    {action : Action} (h : Works host pipeline lockfile job worker action worker') :
    worker'.Fails ↔ worker.Fails ∨ ¬ action.Smooth := by
  cases h with
  | started => simp [Worker.Fails, Action.Smooth]
  | pulled dep rest content hSha => simp [Worker.Fails, Action.Smooth]
  | mismatched dep rest content hSha => simp [Worker.Fails, Action.Smooth]
  | refused dep rest statusCode content message hStatus => simp [Worker.Fails, Action.Smooth, hStatus]
  | launched hRun => simp [Worker.Fails, Action.Smooth]
  | succeeded => simp [Worker.Fails, Action.Smooth]
  | failed exitCode hExit => simp [Worker.Fails, Action.Smooth]
  | absent artifact rest published => simp [Worker.Fails, Action.Smooth]
  | found artifact rest published data hHold => simp [Worker.Fails, Action.Smooth]
  | handled artifact data rest published statusCode text => simp [Worker.Fails, Action.Smooth]
  | created artifact data statusCode text rest published hStatus =>
    simp [Worker.Fails, Action.Smooth, hStatus]
  | rejected artifact data statusCode text rest published message hStatus =>
    simp [Worker.Fails, hStatus]
  | finished published => simp [Worker.Fails, Action.Smooth]
  | raised worker message hActive => simp [Worker.Fails, Action.Smooth]

/-! ## An exception brings the run down -/

/-- A pool has been opened only with a positive limit. -/
def PoolSize (host : Host) (s : Execution) : Prop :=
  match s.main with
  | .levels _ _ integrityFailed => integrityFailed = true → 0 < host.concurrencyLimit
  | .submitting _ _ _ => 0 < host.concurrencyLimit
  | .collecting _ _ _ => 0 < host.concurrencyLimit
  | _ => True

theorem Collects.poolSize {scheduler : DAGScheduler} {rest : List (List String)} {integrityFailed : Bool}
    (hSize : PoolSize host s) (hMain : s.main = .collecting scheduler rest integrityFailed)
    (h : Collects rest u t) : PoolSize host t := by
  rw [PoolSize, hMain] at hSize
  rcases h.main with ⟨scheduler', integrityFailed', hMain'⟩ | ⟨error, hMain'⟩
  · rw [PoolSize, hMain']
    exact hSize
  · rw [PoolSize, hMain']
    trivial

theorem Moves.poolSize (hSize : PoolSize host s) (h : Moves host registry pipeline s e t) :
    PoolSize host t := by
  cases h with
  | resolved lockfile hMain hResolves => trivial
  | unresolved t hMain hNot hStops => cases hStops <;> trivial
  | planned scheduler plan hMain hPlans => exact fun hFlag => by cases hFlag
  | unplanned t hMain hNot hStops => cases hStops <;> trivial
  | skippedLevel scheduler level rest hMain =>
    rw [PoolSize, hMain] at hSize
    exact hSize
  | refusedPool scheduler level rest hMain hLimit => trivial
  | openedPool scheduler level rest hMain hLimit => exact hLimit
  | submittedSkipped scheduler job todo rest hMain hSkipped =>
    rw [PoolSize, hMain] at hSize
    exact hSize
  | submittedUnknown scheduler job todo rest hMain hUnknown => trivial
  | submitted scheduler job todo rest hMain hNot hJob =>
    rw [PoolSize, hMain] at hSize
    exact hSize
  | submittedAll scheduler rest hMain =>
    rw [PoolSize, hMain] at hSize
    exact hSize
  | worked job worker worker' action hWorker hPool hWorks => exact hSize
  | collectedResult scheduler rest integrityFailed job result published hMain hFresh hWorker =>
    exact (collectResult_collects scheduler rest integrityFailed job result published).poolSize hSize
      hMain
  | collectedIntegrityError scheduler rest integrityFailed job name version expected actual hMain hFresh
      hWorker =>
    exact (collectIntegrityError_collects scheduler rest job).poolSize hSize hMain
  | collectedException scheduler rest integrityFailed job message hMain hFresh hWorker => trivial
  | closedPool scheduler rest integrityFailed hMain hAll =>
    rw [PoolSize, hMain] at hSize
    exact fun _ => hSize
  | aborted error hMain hIdle => trivial
  | finished scheduler integrityFailed now hMain => trivial
  | interrupted message hEnded hAborting => trivial

/-- Only a run that has passed all levels gets a completion time. -/
theorem Moves.completedAt (h : Moves host registry pipeline s e t) :
    t.run.completedAt = s.run.completedAt ∨
      ∃ scheduler integrityFailed, s.main = .levels scheduler [] integrityFailed := by
  cases h with
  | unresolved t hMain hNot hStops => exact .inl (by cases hStops <;> rfl)
  | unplanned t hMain hNot hStops => exact .inl (by cases hStops <;> rfl)
  | collectedResult scheduler rest integrityFailed job result published hMain hFresh hWorker =>
    obtain ⟨jobs, hRun⟩ := collectResult_run (s := { s with collected := job :: s.collected }) scheduler rest
      integrityFailed job result published
    exact .inl (by rw [hRun])
  | collectedIntegrityError scheduler rest integrityFailed job name version expected actual hMain hFresh
      hWorker =>
    obtain ⟨jobs, hRun⟩ := collectIntegrityError_run (s := { s with collected := job :: s.collected })
      scheduler rest job
    exact .inl (by rw [hRun])
  | finished scheduler integrityFailed now hMain => exact .inr ⟨scheduler, integrityFailed, hMain⟩
  | _ => exact .inl rfl

/-- The run will end, if it does, in the handler of exceptions. -/
def Lost (s : Execution) : Prop := Doomed s ∧ s.run.completedAt = none

theorem Moves.lost (hPool : PoolInv s) (hLost : Lost s) (h : Moves host registry pipeline s e t) :
    Lost t := by
  refine ⟨h.doomed hPool hLost.1, ?_⟩
  cases h.completedAt with
  | inl hSame => rw [hSame, hLost.2]
  | inr hPassed =>
    obtain ⟨scheduler, integrityFailed, hMain⟩ := hPassed
    have hDoomed := hLost.1
    rw [Doomed, hMain] at hDoomed
    exact hDoomed.elim

theorem Moves.lost_of_not_smooth (hPool : PoolInv s) (hSize : PoolSize host s)
    (hUnfinished : s.main.isEnded = false → s.run.completedAt = none)
    (h : Moves host registry pipeline s e t) (hNot : ¬ e.Smooth host) : Lost t := by
  cases h with
  | worked job worker worker' action hWorker hAllowed hWorks =>
    have hFails := hWorks.fails_iff.mpr (.inr hNot)
    refine ⟨Doomed.of_fails hPool hWorker hWorks.not_done hFails, hUnfinished ?_⟩
    have hAwaits := hPool.awaits hWorker hWorks.not_done
    rw [Execution.Awaits] at hAwaits
    cases hMain : s.main with
    | ended =>
      rw [hMain] at hAwaits
      exact hAwaits.elim
    | _ => rfl
  | skippedLevel scheduler level rest hMain =>
    rw [PoolSize, hMain] at hSize
    exact absurd (hSize rfl) hNot
  | refusedPool scheduler level rest hMain hLimit =>
    exact ⟨trivial, hUnfinished (by rw [hMain]; rfl)⟩
  | openedPool scheduler level rest hMain hLimit => exact absurd hLimit hNot
  | interrupted message hEnded hAborting => exact ⟨trivial, hUnfinished hEnded⟩
  | _ => exact absurd trivial hNot

/-! ## Without an exception the run goes on -/

def Execution.NoneFails (s : Execution) : Prop :=
  ∀ job worker, s.futures.get? job = some worker → ¬ worker.Fails

theorem Moves.noneFails (hNone : s.NoneFails) (h : Moves host registry pipeline s e t)
    (hSmooth : e.Smooth host) : t.NoneFails := by
  apply h.workers hNone (fun _ _ => id)
  rintro job worker action worker' hWorker rfl hWorks hFails
  cases hWorks.fails_iff.mp hFails with
  | inl hOld => exact hNone job worker hWorker hOld
  | inr hNot => exact hNot hSmooth

/-- Between two levels, in a level, or at an end that the run has come to by itself. -/
def Underway (s : Execution) : Prop :=
  match s.main with
  | .levels _ _ _ => True
  | .submitting _ _ _ => True
  | .collecting _ _ _ => True
  | .ended => s.run.completedAt ≠ none
  | _ => False

theorem Underway.of_collects {rest : List (List String)} (h : Collects rest u t)
    (hNot : t.main.isAborting = false) : Underway t := by
  rw [Underway]
  rcases h.main with ⟨scheduler', integrityFailed', hMain'⟩ | ⟨error, hMain'⟩
  · rw [hMain']
    trivial
  · rw [hMain'] at hNot
    cases hNot

/-- What a run without an exception has, besides its place. -/
structure Steady (g : JobGraph) (plan : List (List String)) (events : List Event) (s : Execution) :
    Prop where
  pool : PoolInv s
  records : RecordsInv g plan events s
  noneFails : s.NoneFails

theorem steady_initial : Steady g plan [] .initial where
  pool := poolInv_initial
  records := recordsInv_initial
  noneFails job worker hGet := by cases hGet

theorem Steady.moves {scheduler₀ : DAGScheduler} (hPlanned : Planned g pipeline scheduler₀ plan)
    (h : Steady g plan events s) (hMove : Moves host registry pipeline s e t)
    (hSmooth : e.Smooth host) : Steady g plan (events ++ [e]) t where
  pool := hMove.poolInv Plans.nodup h.pool
  records := h.records.moves hPlanned h.pool hMove
  noneFails := hMove.noneFails h.noneFails hSmooth

/-- Every way into the handler of exceptions is one of those that the steps of a smooth run leave out. -/
theorem Moves.underway {scheduler₀ : DAGScheduler} (hPlanned : Planned g pipeline scheduler₀ plan)
    (hSteady : Steady g plan events s) (hUnderway : Underway s)
    (h : Moves host registry pipeline s e t) (hSmooth : e.Smooth host) : Underway t := by
  have hRecords := hSteady.records
  cases h with
  | resolved lockfile hMain hResolves =>
    rw [Underway, hMain] at hUnderway
    exact hUnderway.elim
  | unresolved t hMain hNot hStops =>
    rw [Underway, hMain] at hUnderway
    exact hUnderway.elim
  | planned scheduler plan hMain hPlans => trivial
  | unplanned t hMain hNot hStops =>
    rw [Underway, hMain] at hUnderway
    exact hUnderway.elim
  | skippedLevel scheduler level rest hMain => trivial
  | refusedPool scheduler level rest hMain hLimit =>
    have hPositive : 0 < host.concurrencyLimit := hSmooth
    omega
  | openedPool scheduler level rest hMain hLimit => trivial
  | submittedSkipped scheduler job todo rest hMain hSkipped => trivial
  | submittedUnknown scheduler job todo rest hMain hUnknown =>
    have hPhase := hRecords.phase
    rw [RecordsPhase, hMain] at hPhase
    obtain ⟨pre, sub, hSplit, -⟩ := hPhase
    have hJob := ((hPlanned.levels.mem_level_iff hSplit job).mp (by simp)).1
    exact (hUnknown (hPlanned.jobs_eq ▸ hJob)).elim
  | submitted scheduler job todo rest hMain hNot hJob => trivial
  | submittedAll scheduler rest hMain => trivial
  | worked job worker worker' action hWorker hPool hWorks => exact hUnderway
  | collectedResult scheduler rest integrityFailed job result published hMain hFresh hWorker =>
    exact .of_collects (collectResult_collects scheduler rest integrityFailed job result published)
      (hRecords.collectedResult hMain hFresh hWorker).2
  | collectedIntegrityError scheduler rest integrityFailed job name version expected actual hMain hFresh
      hWorker =>
    exact .of_collects (collectIntegrityError_collects scheduler rest job)
      (hRecords.collectedIntegrityError hMain hFresh hWorker).2
  | collectedException scheduler rest integrityFailed job message hMain hFresh hWorker =>
    exact (hSteady.noneFails job _ hWorker trivial).elim
  | closedPool scheduler rest integrityFailed hMain hAll => trivial
  | aborted error hMain hIdle =>
    rw [Underway, hMain] at hUnderway
    exact hUnderway.elim
  | finished scheduler integrityFailed now hMain => exact Option.some_ne_none now
  | interrupted message hEnded hAborting => exact hSmooth.elim

theorem StopsEarly.running (h : StopsEarly s t) (hRunning : t.run.status = .running) :
    s.run.status = .running := by
  cases h with
  | ends status error hStatus =>
    have hSet : status = .running := hRunning
    rcases hStatus with rfl | rfl
    · cases hSet
    · cases hSet
  | aborts error => exact hRunning

theorem finalStatus_ne_running (integrityFailed : Bool) (statuses : List EntryStatus) :
    finalStatus integrityFailed statuses ≠ .running := by
  rcases finalStatus_terminal integrityFailed statuses with hEq | hEq | hEq
  · rw [hEq]
    exact RunStatus.noConfusion
  · rw [hEq]
    exact RunStatus.noConfusion
  · rw [hEq]
    exact RunStatus.noConfusion

/-- Only a plan sets the status `running`. -/
theorem Moves.running (h : Moves host registry pipeline s e t) (hRunning : t.run.status = .running) :
    s.run.status = .running ∨ Underway t ∧ ∃ scheduler plan, Plans pipeline scheduler plan := by
  cases h with
  | unresolved t hMain hNot hStops => exact .inl (hStops.running hRunning)
  | unplanned t hMain hNot hStops => exact .inl (hStops.running hRunning)
  | planned scheduler plan hMain hPlans => exact .inr ⟨trivial, scheduler, plan, hPlans⟩
  | collectedResult scheduler rest integrityFailed job result published hMain hFresh hWorker =>
    obtain ⟨jobs, hRun⟩ := collectResult_run (s := { s with collected := job :: s.collected }) scheduler rest
      integrityFailed job result published
    rw [hRun] at hRunning
    exact .inl hRunning
  | collectedIntegrityError scheduler rest integrityFailed job name version expected actual hMain hFresh
      hWorker =>
    obtain ⟨jobs, hRun⟩ := collectIntegrityError_run (s := { s with collected := job :: s.collected })
      scheduler rest job
    rw [hRun] at hRunning
    exact .inl hRunning
  | aborted error hMain hIdle => cases hRunning
  | finished scheduler integrityFailed now hMain => exact (finalStatus_ne_running _ _ hRunning).elim
  | _ => exact .inl hRunning

theorem planned_of_running (hRun : Run (Execution.Step host registry pipeline) .initial events s)
    (hRunning : s.run.status = .running) :
    ∃ (g : JobGraph) (scheduler : DAGScheduler) (plan : List (List String)),
      Planned g pipeline scheduler plan := by
  have hKeeps := hRun.invariant fun s e t
      (h : s.run.status = .running → ∃ scheduler plan, Plans pipeline scheduler plan) hStep hRunning =>
    (hStep.moves.running hRunning).elim h And.right
  obtain ⟨scheduler, plan, hPlans⟩ := hKeeps (fun hQueued => by cases hQueued) hRunning
  obtain ⟨g, hPlanned⟩ := hPlans.exists_planned
  exact ⟨g, scheduler, plan, hPlanned⟩

/-! ## Whole runs -/

/-- What a run with an exception in it has come to, while it is not over. -/
structure Failsafe (host : Host) (g : JobGraph) (plan : List (List String)) (events : List Event)
    (s : Execution) : Prop where
  pool : PoolInv s
  records : RecordsInv g plan events s
  size : PoolSize host s
  lost : (∃ e ∈ events, ¬ e.Smooth host) → Lost s

theorem failsafe_initial : Failsafe host g plan [] .initial where
  pool := poolInv_initial
  records := recordsInv_initial
  size := trivial
  lost h := by simp at h

theorem Failsafe.moves {scheduler₀ : DAGScheduler} (hPlanned : Planned g pipeline scheduler₀ plan)
    (h : Failsafe host g plan events s) (hMove : Moves host registry pipeline s e t) :
    Failsafe host g plan (events ++ [e]) t where
  pool := hMove.poolInv Plans.nodup h.pool
  records := h.records.moves hPlanned h.pool hMove
  size := hMove.poolSize h.size
  lost := by
    rintro ⟨e', hMem, hNot⟩
    cases List.mem_append.mp hMem with
    | inl hOld => exact hMove.lost h.pool (h.lost ⟨e', hOld, hNot⟩)
    | inr hNew =>
      cases List.mem_singleton.mp hNew
      exact hMove.lost_of_not_smooth h.pool h.size h.records.unfinished hNot

theorem lost_run {scheduler : DAGScheduler} (hPlanned : Planned g pipeline scheduler plan)
    (hRun : Run (Execution.Step host registry pipeline) .initial events s)
    (hNot : ∃ e ∈ events, ¬ e.Smooth host) : Lost s := by
  have hKeeps := hRun.traces fun before s e t (h : Failsafe host g plan before s) hStep =>
    h.moves hPlanned hStep.moves
  exact (hKeeps [] failsafe_initial).lost hNot

theorem steady_run {scheduler : DAGScheduler} {before : List Event}
    (hPlanned : Planned g pipeline scheduler plan) (hSteady : Steady g plan before u)
    (hRunning : u.run.status = .running → Underway u)
    (hRun : Run (Execution.Step host registry pipeline) u events s)
    (hSmooth : ∀ e ∈ events, e.Smooth host) :
    Steady g plan (before ++ events) s ∧ (s.run.status = .running → Underway s) := by
  have hRun' : Run (restrict (Execution.Step host registry pipeline) fun _ e => e.Smooth host) u events
      s := hRun.restrict_of_forall fun e hMem _ => hSmooth e hMem
  have hKeeps := hRun'.traces fun before s e t
      (h : Steady g plan before s ∧ (s.run.status = .running → Underway s)) hStep => by
    refine And.intro (h.1.moves hPlanned hStep.1.moves hStep.2) fun hRunning => ?_
    cases hStep.1.moves.running hRunning with
    | inl hOld => exact hStep.1.moves.underway hPlanned h.1 (h.2 hOld) hStep.2
    | inr hNew => exact hNew.1
  exact hKeeps before ⟨hSteady, hRunning⟩

theorem underway_run {scheduler : DAGScheduler} {before : List Event}
    (hPlanned : Planned g pipeline scheduler plan) (hSteady : Steady g plan before u)
    (hUnderway : Underway u) (hRun : Run (Execution.Step host registry pipeline) u events s)
    (hSmooth : ∀ e ∈ events, e.Smooth host) : Steady g plan (before ++ events) s ∧ Underway s := by
  have hRun' : Run (restrict (Execution.Step host registry pipeline) fun _ e => e.Smooth host) u events
      s := hRun.restrict_of_forall fun e hMem _ => hSmooth e hMem
  have hKeeps := hRun'.traces fun before s e t (h : Steady g plan before s ∧ Underway s) hStep =>
    And.intro (h.1.moves hPlanned hStep.1.moves hStep.2)
      (hStep.1.moves.underway hPlanned h.1 h.2 hStep.2)
  exact hKeeps before ⟨hSteady, hUnderway⟩

theorem finalized_iff_smooth {before after : List Event}
    (hBefore : Run (Execution.Step host registry pipeline) .initial before u)
    (hRunning : u.run.status = .running)
    (hAfter : Run (Execution.Step host registry pipeline) u after s) (hEnded : s.main = .ended) :
    Finalized pipeline.jobs (before ++ after) s.run ↔ ∀ e ∈ before ++ after, e.Smooth host := by
  obtain ⟨g, scheduler, plan, hPlanned⟩ := planned_of_running hBefore hRunning
  constructor
  · intro hFinalized
    by_contra hNot
    push Not at hNot
    exact hFinalized.completedAt (lost_run hPlanned (hBefore.append hAfter) hNot).2
  · intro hSmooth
    obtain ⟨hSteady, hUnderway⟩ := steady_run hPlanned steady_initial (fun hQueued => by cases hQueued)
      hBefore fun e hMem => hSmooth e (List.mem_append_left after hMem)
    obtain ⟨hSteady', hUnderway'⟩ := underway_run hPlanned hSteady (hUnderway hRunning) hAfter
      fun e hMem => hSmooth e (List.mem_append_right before hMem)
    have hPhase := hSteady'.records.phase
    rw [RecordsPhase, hEnded] at hPhase
    rw [Underway, hEnded] at hUnderway'
    rw [hPlanned.jobs_eq]
    exact hPhase hUnderway'

/-- The tests fail, and the run is finalized all the same. -/
theorem finalized_iff_smooth_release : ∃ u s : Execution, u.run.status = .running ∧ s.main = .ended ∧
    (Finalized (releasePipeline []).jobs (releaseEvents.take 2 ++ releaseEvents.drop 2) s.run ↔
      ∀ e ∈ releaseEvents.take 2 ++ releaseEvents.drop 2, e.Smooth exampleHost) := by
  have hRuns : ∃ u s, Run (Execution.Step exampleHost emptyRegistry (releasePipeline [])) .initial
      (releaseEvents.take 2) u ∧ u.run.status = .running ∧
      Run (Execution.Step exampleHost emptyRegistry (releasePipeline [])) u (releaseEvents.drop 2) s ∧
      s.main = .ended :=
    ⟨_, _, run_stepsOf_iff.mpr rfl, rfl, run_stepsOf_iff.mpr rfl, rfl⟩
  obtain ⟨u, s, hBefore, hRunning, hAfter, hEnded⟩ := hRuns
  exact ⟨u, s, hRunning, hEnded, finalized_iff_smooth hBefore hRunning hAfter hEnded⟩

/-- The Docker API raises an error for `build` while `lint` is at work. -/
def brokenEvents : List Event :=
  [.resolve, .plan, .enterLevel, .submit, .submit, .submit, .work "build" .start, .work "lint" .start,
    .work "build" (.raise "docker"), .work "lint" .launch, .collect "build", .work "lint" (.exit 0),
    .work "lint" .finish, .abort]

/-- The run comes to its end without an entry for any of its jobs. -/
theorem not_finalized_broken : ∃ u s : Execution,
    Run (Execution.Step exampleHost emptyRegistry (releasePipeline [])) .initial
        (brokenEvents.take 2) u ∧
      u.run.status = .running ∧
      Run (Execution.Step exampleHost emptyRegistry (releasePipeline [])) u (brokenEvents.drop 2) s ∧
      s.main = .ended ∧ s.run.completedAt = none ∧ s.run.jobs.keys = [] ∧
      ¬ Finalized (releasePipeline []).jobs (brokenEvents.take 2 ++ brokenEvents.drop 2) s.run := by
  have hRuns : ∃ u s, Run (Execution.Step exampleHost emptyRegistry (releasePipeline [])) .initial
      (brokenEvents.take 2) u ∧ u.run.status = .running ∧
      Run (Execution.Step exampleHost emptyRegistry (releasePipeline [])) u (brokenEvents.drop 2) s ∧
      s.main = .ended ∧ s.run.completedAt = none ∧ s.run.jobs.keys = [] :=
    ⟨_, _, run_stepsOf_iff.mpr rfl, rfl, run_stepsOf_iff.mpr rfl, rfl, rfl, rfl⟩
  obtain ⟨u, s, hBefore, hRunning, hAfter, hEnded, hCompleted, hKeys⟩ := hRuns
  exact ⟨u, s, hBefore, hRunning, hAfter, hEnded, hCompleted, hKeys, fun h => h.completedAt hCompleted⟩

end Forge.Engine
