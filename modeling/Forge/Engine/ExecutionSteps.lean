import Forge.Engine.Execution

/-! # What a step of an execution can do

Each step is inverted once, for a worker and for the whole execution.
-/
namespace Forge.Engine
open Forge.Python Forge.Registry Forge.Theory
set_option autoImplicit false

/-! ## Workers -/

/-- The steps of `execute_job`, branch by branch. -/
inductive Works (host : Host) (pipeline : PipelineConfig) (lockfile : Option Lockfile) (job : String) :
    Worker → Action → Worker → Prop where
  | started : Works host pipeline lockfile job .queued .start (.pulling (depsOf lockfile))
  | pulled (dep : DepPull) (rest : List DepPull) (content : Bytes)
      (hSha : sha256 content = dep.2.sha256) :
      Works host pipeline lockfile job (.pulling (dep :: rest)) (.pull 200 content) (.pulling rest)
  | mismatched (dep : DepPull) (rest : List DepPull) (content : Bytes)
      (hSha : sha256 content ≠ dep.2.sha256) :
      Works host pipeline lockfile job (.pulling (dep :: rest)) (.pull 200 content)
        (.raised (.integrityError dep.1 dep.2.version dep.2.sha256 (sha256 content)))
  | refused (dep : DepPull) (rest : List DepPull) (statusCode : Nat) (content : Bytes)
      (message : String) (hStatus : statusCode ≠ 200) :
      Works host pipeline lockfile job (.pulling (dep :: rest)) (.pull statusCode content)
        (.raised (.exception message))
  | launched (hRun : host.canRun job = true) :
      Works host pipeline lockfile job (.pulling []) .launch .running
  | succeeded : Works host pipeline lockfile job .running (.exit 0) (.walking pipeline.artifacts [])
  | failed (exitCode : Int) (hExit : exitCode ≠ 0) :
      Works host pipeline lockfile job .running (.exit exitCode) (.returned ⟨exitCode⟩ [])
  | absent (artifact : PipelineArtifact) (rest : List PipelineArtifact)
      (published : List PublishedArtifact) :
      Works host pipeline lockfile job (.walking (artifact :: rest) published) (.lookup none)
        (.walking rest published)
  | found (artifact : PipelineArtifact) (rest : List PipelineArtifact)
      (published : List PublishedArtifact) (data : Bytes)
      (hHold : host.canHold (relPath artifact) = true) :
      Works host pipeline lockfile job (.walking (artifact :: rest) published) (.lookup (some data))
        (.posting artifact data rest published)
  | handled (artifact : PipelineArtifact) (data : Bytes) (rest : List PipelineArtifact)
      (published : List PublishedArtifact) (statusCode : Nat) (text : String) :
      Works host pipeline lockfile job (.posting artifact data rest published)
        (.handle statusCode text) (.answered artifact data statusCode text rest published)
  | created (artifact : PipelineArtifact) (data : Bytes) (statusCode : Nat) (text : String)
      (rest : List PipelineArtifact) (published : List PublishedArtifact)
      (hStatus : Created statusCode) :
      Works host pipeline lockfile job (.answered artifact data statusCode text rest published) .receive
        (.walking rest (published ++ [⟨artifact.name, artifact.version, sha256 data⟩]))
  | rejected (artifact : PipelineArtifact) (data : Bytes) (statusCode : Nat) (text : String)
      (rest : List PipelineArtifact) (published : List PublishedArtifact) (message : String)
      (hStatus : ¬ Created statusCode) :
      Works host pipeline lockfile job (.answered artifact data statusCode text rest published) .receive
        (.raised (.exception message))
  | finished (published : List PublishedArtifact) :
      Works host pipeline lockfile job (.walking [] published) .finish (.returned ⟨0⟩ published)
  | raised (worker : Worker) (message : String) (hActive : worker.isActive = true) :
      Works host pipeline lockfile job worker (.raise message) (.raised (.exception message))

section
variable {host : Host} {registry : RegistryClient} {pipeline : PipelineConfig}
  {lockfile : Option Lockfile} {job : String}

theorem pull_works {dep : DepPull} {rest : List DepPull} {statusCode : Nat} {content : Bytes}
    {worker : Worker}
    (h : executeJob host pipeline lockfile job (.pulling (dep :: rest)) (.pull statusCode content) =
      some worker) :
    Works host pipeline lockfile job (.pulling (dep :: rest)) (.pull statusCode content) worker := by
  simp only [executeJob, pullDep] at h
  by_cases hStatus : statusCode = 200
  · subst hStatus
    by_cases hSha : sha256 content = dep.2.sha256
    · simp only [ne_eq, not_true_eq_false, if_false, hSha] at h
      cases h
      exact .pulled dep rest content hSha
    · simp only [ne_eq, not_true_eq_false, if_false, hSha, not_false_eq_true, if_true] at h
      cases h
      exact .mismatched dep rest content hSha
  · simp only [ne_eq, hStatus, not_false_eq_true, if_true] at h
    cases h
    exact .refused dep rest statusCode content _ hStatus

theorem lookup_works {artifact : PipelineArtifact} {rest : List PipelineArtifact}
    {published : List PublishedArtifact} {file : Option Bytes} {worker : Worker}
    (h : executeJob host pipeline lockfile job (.walking (artifact :: rest) published) (.lookup file) =
      some worker) :
    Works host pipeline lockfile job (.walking (artifact :: rest) published) (.lookup file) worker := by
  cases file with
  | none =>
    cases h
    exact .absent artifact rest published
  | some data =>
    simp only [executeJob] at h
    split at h
    · rename_i hHold
      cases h
      exact .found artifact rest published data hHold
    · cases h

theorem receive_works {artifact : PipelineArtifact} {data : Bytes} {statusCode : Nat} {text : String}
    {rest : List PipelineArtifact} {published : List PublishedArtifact} {worker : Worker}
    (h : executeJob host pipeline lockfile job
      (.answered artifact data statusCode text rest published) .receive = some worker) :
    Works host pipeline lockfile job (.answered artifact data statusCode text rest published) .receive
      worker := by
  simp only [executeJob, publishArtifact] at h
  by_cases hStatus : Created statusCode
  · rw [if_pos hStatus] at h
    cases h
    exact .created artifact data statusCode text rest published hStatus
  · rw [if_neg hStatus] at h
    cases h
    exact .rejected artifact data statusCode text rest published _ hStatus

theorem executeJob_works {worker worker' : Worker} {action : Action}
    (h : executeJob host pipeline lockfile job worker action = some worker') :
    Works host pipeline lockfile job worker action worker' := by
  cases action with
  | start =>
    cases worker with
    | queued =>
      cases h
      exact .started
    | _ => cases h
  | pull statusCode content =>
    cases worker with
    | pulling deps =>
      cases deps with
      | nil => cases h
      | cons dep rest => exact pull_works h
    | _ => cases h
  | launch =>
    cases worker with
    | pulling deps =>
      cases deps with
      | nil =>
        simp only [executeJob] at h
        split at h
        · rename_i hRun
          cases h
          exact .launched hRun
        · cases h
      | cons dep rest => cases h
    | _ => cases h
  | exit exitCode =>
    cases worker with
    | running =>
      simp only [executeJob] at h
      split at h
      · rename_i hExit
        cases h
        cases hExit
        exact .succeeded
      · rename_i hExit
        cases h
        exact .failed exitCode hExit
    | _ => cases h
  | lookup file =>
    cases worker with
    | walking artifacts published =>
      cases artifacts with
      | nil => cases h
      | cons artifact rest => exact lookup_works h
    | _ => cases h
  | handle statusCode text =>
    cases worker with
    | posting artifact data rest published =>
      cases h
      exact .handled artifact data rest published statusCode text
    | _ => cases h
  | receive =>
    cases worker with
    | answered artifact data statusCode text rest published => exact receive_works h
    | _ => cases h
  | finish =>
    cases worker with
    | walking artifacts published =>
      cases artifacts with
      | nil =>
        cases h
        exact .finished published
      | cons artifact rest => cases h
    | _ => cases h
  | raise message =>
    simp only [executeJob] at h
    split at h
    · rename_i hActive
      cases h
      exact .raised worker message hActive
    · cases h

/-! ## Executions -/

/-- The end of a run before its first level. -/
inductive StopsEarly (s : Execution) : Execution → Prop where
  | ends (status : RunStatus) (error : Option String)
      (hStatus : status = .cycleFailure ∨ status = .conflictFailure) : StopsEarly s (s.ends status error)
  | aborts (error : String) : StopsEarly s (s.aborts error)

def Execution.worked (s : Execution) (job : String) (worker : Worker) (action : Action)
    (worker' : Worker) : Execution :=
  { s with futures := s.futures.set job worker', history := s.history.record job worker action }

/-- Whether the resolution returns `lockfile`. -/
def Resolves (registry : RegistryClient) (pipeline : PipelineConfig) (lockfile : Lockfile) : Prop :=
  Registry.resolve registry pipeline.dependencies = .ok lockfile

/-- Whether the scheduler of the pipeline is built and has a plan. -/
def Plans (pipeline : PipelineConfig) (scheduler : DAGScheduler) (plan : List (List String)) : Prop :=
  DAGScheduler.new pipeline.jobs = .ok scheduler ∧ scheduler.getExecutionPlan = .ok plan

inductive Moves (host : Host) (registry : RegistryClient) (pipeline : PipelineConfig) (s : Execution) :
    Event → Execution → Prop where
  | resolved (lockfile : Lockfile) (hMain : s.main = .queued)
      (hResolves : Resolves registry pipeline lockfile) :
      Moves host registry pipeline s .resolve
        { s with run := { s.run with lockfile := some lockfile }, main := .resolved }
  | unresolved (t : Execution) (hMain : s.main = .queued)
      (hNot : ∀ lockfile, ¬ Resolves registry pipeline lockfile) (hStops : StopsEarly s t) :
      Moves host registry pipeline s .resolve t
  | planned (scheduler : DAGScheduler) (plan : List (List String)) (hMain : s.main = .resolved)
      (hPlans : Plans pipeline scheduler plan) :
      Moves host registry pipeline s .plan
        { s with run := { s.run with status := .running }, main := .levels scheduler plan false }
  | unplanned (t : Execution) (hMain : s.main = .resolved)
      (hNot : ∀ scheduler plan, ¬ Plans pipeline scheduler plan) (hStops : StopsEarly s t) :
      Moves host registry pipeline s .plan t
  | skippedLevel (scheduler : DAGScheduler) (level : List String) (rest : List (List String))
      (hMain : s.main = .levels scheduler (level :: rest) true) :
      Moves host registry pipeline s .enterLevel
        { s with run := { s.run with jobs := level.foldl setSkipped s.run.jobs }
                 main := .levels scheduler rest true }
  | refusedPool (scheduler : DAGScheduler) (level : List String) (rest : List (List String))
      (hMain : s.main = .levels scheduler (level :: rest) false) (hLimit : host.concurrencyLimit ≤ 0) :
      Moves host registry pipeline s .enterLevel (s.aborts "max_workers must be greater than 0")
  | openedPool (scheduler : DAGScheduler) (level : List String) (rest : List (List String))
      (hMain : s.main = .levels scheduler (level :: rest) false) (hLimit : 0 < host.concurrencyLimit) :
      Moves host registry pipeline s .enterLevel
        { s with main := .submitting scheduler level rest, futures := .empty, collected := [] }
  | submittedSkipped (scheduler : DAGScheduler) (job : String) (todo : List String)
      (rest : List (List String)) (hMain : s.main = .submitting scheduler (job :: todo) rest)
      (hSkipped : scheduler.getJobStatus job = .skipped) :
      Moves host registry pipeline s .submit
        { s with run := { s.run with jobs := s.run.jobs.set job skippedEntry }
                 main := .submitting scheduler todo rest }
  | submittedUnknown (scheduler : DAGScheduler) (job : String) (todo : List String)
      (rest : List (List String)) (hMain : s.main = .submitting scheduler (job :: todo) rest)
      (hUnknown : job ∉ pipeline.jobs.keys) :
      Moves host registry pipeline s .submit (s.aborts ("'" ++ job ++ "'"))
  | submitted (scheduler : DAGScheduler) (job : String) (todo : List String)
      (rest : List (List String)) (hMain : s.main = .submitting scheduler (job :: todo) rest)
      (hNot : scheduler.getJobStatus job ≠ .skipped) (hJob : job ∈ pipeline.jobs.keys) :
      Moves host registry pipeline s .submit
        { s with main := .submitting scheduler todo rest, futures := s.futures.set job .queued }
  | submittedAll (scheduler : DAGScheduler) (rest : List (List String))
      (hMain : s.main = .submitting scheduler [] rest) :
      Moves host registry pipeline s .submit { s with main := .collecting scheduler rest false }
  | worked (job : String) (worker worker' : Worker) (action : Action)
      (hWorker : s.futures.get? job = some worker) (hPool : s.poolAllows host job action = true)
      (hWorks : Works host pipeline s.run.lockfile job worker action worker') :
      Moves host registry pipeline s (.work job action) (s.worked job worker action worker')
  | collectedResult (scheduler : DAGScheduler) (rest : List (List String)) (integrityFailed : Bool)
      (job : String) (result : JobResult) (published : List PublishedArtifact)
      (hMain : s.main = .collecting scheduler rest integrityFailed) (hFresh : job ∉ s.collected)
      (hWorker : s.futures.get? job = some (.returned result published)) :
      Moves host registry pipeline s (.collect job)
        (Execution.collectResult { s with collected := job :: s.collected } scheduler rest
          integrityFailed job result published)
  | collectedIntegrityError (scheduler : DAGScheduler) (rest : List (List String))
      (integrityFailed : Bool) (job name version expected actual : String)
      (hMain : s.main = .collecting scheduler rest integrityFailed) (hFresh : job ∉ s.collected)
      (hWorker : s.futures.get? job = some (.raised (.integrityError name version expected actual))) :
      Moves host registry pipeline s (.collect job)
        (Execution.collectIntegrityError { s with collected := job :: s.collected } scheduler rest job)
  | collectedException (scheduler : DAGScheduler) (rest : List (List String))
      (integrityFailed : Bool) (job message : String)
      (hMain : s.main = .collecting scheduler rest integrityFailed) (hFresh : job ∉ s.collected)
      (hWorker : s.futures.get? job = some (.raised (.exception message))) :
      Moves host registry pipeline s (.collect job)
        (Execution.aborts { s with collected := job :: s.collected } message)
  | closedPool (scheduler : DAGScheduler) (rest : List (List String)) (integrityFailed : Bool)
      (hMain : s.main = .collecting scheduler rest integrityFailed)
      (hAll : ∀ job ∈ s.futures.keys, job ∈ s.collected) :
      Moves host registry pipeline s .closePool
        { s with main := .levels scheduler rest integrityFailed }
  | aborted (error : String) (hMain : s.main = .aborting error) (hIdle : s.idle = true) :
      Moves host registry pipeline s .abort (s.ends .failed (some error))
  | finished (scheduler : DAGScheduler) (integrityFailed : Bool) (now : String)
      (hMain : s.main = .levels scheduler [] integrityFailed) :
      Moves host registry pipeline s (.finish now) (s.finish integrityFailed now)
  | interrupted (message : String) (hEnded : s.main.isEnded = false)
      (hAborting : s.main.isAborting = false) :
      Moves host registry pipeline s (.interrupt message) (s.aborts message)

theorem resolve_moves {s : Execution} (hMain : s.main = .queued) :
    Moves host registry pipeline s .resolve (s.resolve registry pipeline) := by
  unfold Execution.resolve
  split
  · rename_i lockfile hResolve
    exact .resolved lockfile hMain hResolve
  · rename_i exc st hResolve
    have hNot : ∀ lockfile, ¬ Resolves registry pipeline lockfile := by
      intro lockfile hOk
      cases hResolve.symm.trans hOk
    apply Moves.unresolved _ hMain hNot
    cases exc with
    | cycleError cycle => exact .ends _ _ (.inl rfl)
    | conflictError name reqs available => exact .ends _ _ (.inr rfl)
    | packageNotFoundError message => exact .ends _ _ (.inr rfl)
    | _ => exact .aborts _

theorem plan_moves {s : Execution} (hMain : s.main = .resolved) :
    Moves host registry pipeline s .plan (s.plan pipeline) := by
  unfold Execution.plan
  cases hNew : DAGScheduler.new pipeline.jobs with
  | error exc =>
    have hNot : ∀ scheduler plan, ¬ Plans pipeline scheduler plan := by
      rintro scheduler plan ⟨hOk, -⟩
      cases hNew.symm.trans hOk
    apply Moves.unplanned _ hMain hNot
    cases exc with
    | valueError message => exact .ends _ _ (.inl rfl)
    | _ => exact .aborts _
  | ok scheduler =>
    dsimp only
    cases hPlan : scheduler.getExecutionPlan with
    | error exc =>
      refine .unplanned _ hMain ?_ (.aborts _)
      rintro scheduler' plan ⟨hOk, hOther⟩
      cases hNew.symm.trans hOk
      cases hPlan.symm.trans hOther
    | ok plan => exact .planned scheduler plan hMain ⟨hNew, hPlan⟩

theorem enterLevel_moves {s : Execution} {scheduler : DAGScheduler} {level : List String}
    {rest : List (List String)} {integrityFailed : Bool}
    (hMain : s.main = .levels scheduler (level :: rest) integrityFailed) :
    Moves host registry pipeline s .enterLevel
      (s.enterLevel host scheduler level rest integrityFailed) := by
  unfold Execution.enterLevel
  cases integrityFailed with
  | true => exact .skippedLevel scheduler level rest hMain
  | false =>
    simp only [Bool.false_eq_true, if_false]
    split
    · rename_i hLimit
      exact .refusedPool scheduler level rest hMain hLimit
    · rename_i hLimit
      exact .openedPool scheduler level rest hMain (by omega)

theorem submit_moves {s : Execution} {scheduler : DAGScheduler} {job : String} {todo : List String}
    {rest : List (List String)} (hMain : s.main = .submitting scheduler (job :: todo) rest) :
    Moves host registry pipeline s .submit (s.submit pipeline scheduler job todo rest) := by
  unfold Execution.submit
  split
  · rename_i hSkipped
    exact .submittedSkipped scheduler job todo rest hMain hSkipped
  · rename_i hNot
    split
    · rename_i hUnknown
      exact .submittedUnknown scheduler job todo rest hMain hUnknown
    · rename_i hJob
      exact .submitted scheduler job todo rest hMain hNot (not_not.mp hJob)

theorem work_moves {s t : Execution} {action : Action} (h : s.work host pipeline job action = some t) :
    Moves host registry pipeline s (.work job action) t := by
  unfold Execution.work at h
  split at h
  · cases h
  · rename_i worker hWorker
    split at h
    · rename_i hPool
      obtain ⟨worker', hJob, rfl⟩ := Option.map_eq_some_iff.mp h
      exact .worked job worker worker' action hWorker hPool (executeJob_works hJob)
    · cases h

theorem collect_moves {s t : Execution} {scheduler : DAGScheduler} {rest : List (List String)}
    {integrityFailed : Bool} (hMain : s.main = .collecting scheduler rest integrityFailed)
    (hFresh : job ∉ s.collected) (h : s.collect scheduler rest integrityFailed job = some t) :
    Moves host registry pipeline s (.collect job) t := by
  simp only [Execution.collect] at h
  split at h
  · rename_i result published hWorker
    cases h
    exact .collectedResult scheduler rest integrityFailed job result published hMain hFresh hWorker
  · rename_i name version expected actual hWorker
    cases h
    exact .collectedIntegrityError scheduler rest integrityFailed job name version expected actual
      hMain hFresh hWorker
  · rename_i message hWorker
    cases h
    exact .collectedException scheduler rest integrityFailed job message hMain hFresh hWorker
  · cases h

theorem Execution.Step.moves {s t : Execution} {e : Event}
    (h : Execution.Step host registry pipeline s e t) : Moves host registry pipeline s e t := by
  rw [Execution.Step, stepsOf] at h
  cases e with
  | resolve =>
    simp only [executePipeline] at h
    split at h
    · rename_i hMain
      cases h
      exact resolve_moves hMain
    · cases h
  | plan =>
    simp only [executePipeline] at h
    split at h
    · rename_i hMain
      cases h
      exact plan_moves hMain
    · cases h
  | enterLevel =>
    simp only [executePipeline] at h
    split at h
    · rename_i scheduler level rest integrityFailed hMain
      cases h
      exact enterLevel_moves hMain
    · cases h
  | submit =>
    simp only [executePipeline] at h
    split at h
    · rename_i scheduler job todo rest hMain
      cases h
      exact submit_moves hMain
    · rename_i scheduler rest hMain
      cases h
      exact .submittedAll scheduler rest hMain
    · cases h
  | work job action => exact work_moves h
  | collect job =>
    simp only [executePipeline] at h
    split at h
    · rename_i scheduler rest integrityFailed hMain
      split at h
      · cases h
      · rename_i hFresh
        exact collect_moves hMain hFresh h
    · cases h
  | closePool =>
    simp only [executePipeline] at h
    split at h
    · rename_i scheduler rest integrityFailed hMain
      split at h
      · rename_i hAll
        cases h
        exact .closedPool scheduler rest integrityFailed hMain (by simpa using hAll)
      · cases h
    · cases h
  | abort =>
    simp only [executePipeline] at h
    split at h
    · rename_i error hMain
      split at h
      · rename_i hIdle
        cases h
        exact .aborted error hMain hIdle
      · cases h
    · cases h
  | finish now =>
    simp only [executePipeline] at h
    split at h
    · rename_i scheduler integrityFailed hMain
      cases h
      exact .finished scheduler integrityFailed now hMain
    · cases h
  | interrupt message =>
    simp only [executePipeline] at h
    split at h
    · cases h
    · rename_i hMain
      cases h
      simp only [Bool.or_eq_true, not_or, Bool.not_eq_true] at hMain
      exact .interrupted message hMain.1 hMain.2

end
end Forge.Engine
