import Forge.Engine.Pool
import Forge.Engine.RunResult

/-! # What holds in every run

The workers of the pool belong to the pipeline and its lockfile, and there are levels only once the
resolution and the plan have gone well. No assumption on the world outside is made here.
-/
namespace Forge.Engine
open Forge.Python Forge.Registry Forge.Theory
set_option autoImplicit false

variable {host : Host} {registry : RegistryClient} {pipeline : PipelineConfig} {s t : Execution}
  {e : Event}

/-! ## What the workers have before them -/

/-- The artifacts that a job which exited 0 has yet to look up. -/
def Worker.remaining : Worker → Option (List PipelineArtifact)
  | .walking artifacts _ => some artifacts
  | .posting _ _ artifacts _ => some artifacts
  | .answered _ _ _ _ artifacts _ => some artifacts
  | .returned result _ => if result.exitCode = 0 then some [] else none
  | _ => none

def Worker.toPull : Worker → List DepPull
  | .pulling deps => deps
  | _ => []

/-- The workers of the pool belong to the pipeline and its lockfile. -/
structure Within (registry : RegistryClient) (pipeline : PipelineConfig) (s : Execution) : Prop where
  lockfile : ∀ lockfile, s.run.lockfile = some lockfile → Resolves registry pipeline lockfile
  job : ∀ job worker, s.futures.get? job = some worker → job ∈ pipeline.jobs.keys
  pulls : ∀ job worker, s.futures.get? job = some worker → worker.toPull ⊆ depsOf s.run.lockfile
  artifacts : ∀ job worker, s.futures.get? job = some worker →
    ∀ rest, worker.remaining = some rest → rest ⊆ pipeline.artifacts

theorem within_initial : Within registry pipeline .initial where
  lockfile lockfile h := by cases h
  job job worker h := by cases h
  pulls job worker h := by cases h
  artifacts job worker h := by cases h

theorem Works.toPull {lockfile : Option Lockfile} {job : String} {worker worker' : Worker}
    {action : Action} (h : Works host pipeline lockfile job worker action worker')
    (hPulls : worker.toPull ⊆ depsOf lockfile) : worker'.toPull ⊆ depsOf lockfile := by
  cases h with
  | started => exact List.Subset.refl _
  | pulled dep rest content hSha => exact fun d hd => hPulls (List.mem_cons_of_mem dep hd)
  | _ => exact List.nil_subset _

theorem Works.remaining {lockfile : Option Lockfile} {job : String} {worker worker' : Worker}
    {action : Action} (h : Works host pipeline lockfile job worker action worker')
    (hRemaining : ∀ rest, worker.remaining = some rest → rest ⊆ pipeline.artifacts) :
    ∀ rest, worker'.remaining = some rest → rest ⊆ pipeline.artifacts := by
  intro rest hRest
  cases h with
  | succeeded =>
    cases hRest
    exact List.Subset.refl _
  | absent artifact rest' published =>
    cases hRest
    exact fun a ha => hRemaining _ rfl (List.mem_cons_of_mem artifact ha)
  | found artifact rest' published data hHold =>
    cases hRest
    exact fun a ha => hRemaining _ rfl (List.mem_cons_of_mem artifact ha)
  | handled artifact data rest' published statusCode text =>
    cases hRest
    exact hRemaining _ rfl
  | created artifact data statusCode text rest' published hStatus =>
    cases hRest
    exact hRemaining _ rfl
  | finished published =>
    cases hRest
    exact List.nil_subset _
  | failed exitCode hExit =>
    simp only [Worker.remaining, hExit, if_false] at hRest
    cases hRest
  | _ => cases hRest

theorem Moves.lockfile (h : Moves host registry pipeline s e t) : t.run.lockfile = s.run.lockfile ∨
    s.main = .queued ∧ ∃ lockfile, t.run.lockfile = some lockfile ∧ Resolves registry pipeline lockfile := by
  cases h with
  | resolved lockfile hMain hResolves => exact .inr ⟨hMain, lockfile, rfl, hResolves⟩
  | unresolved t hMain hNot hStops => exact .inl (by cases hStops <;> rfl)
  | unplanned t hMain hNot hStops => exact .inl (by cases hStops <;> rfl)
  | collectedResult scheduler rest integrityFailed job result published hMain hFresh hWorker =>
    exact .inl (collectResult_collects scheduler rest integrityFailed job result published).lockfile
  | collectedIntegrityError scheduler rest integrityFailed job name version expected actual hMain
      hFresh hWorker =>
    exact .inl (collectIntegrityError_collects scheduler rest job).lockfile
  | _ => exact .inl rfl

theorem Moves.lockfile_resolves (h : Moves host registry pipeline s e t)
    (hOld : ∀ lockfile, s.run.lockfile = some lockfile → Resolves registry pipeline lockfile) :
    ∀ lockfile, t.run.lockfile = some lockfile → Resolves registry pipeline lockfile := by
  intro lockfile hLockfile
  rcases h.lockfile with hSame | ⟨-, lockfile', hNew, hResolves⟩
  · exact hOld lockfile (hSame ▸ hLockfile)
  · cases hNew.symm.trans hLockfile
    exact hResolves

theorem Worker.toPull_of_isDone {worker : Worker} (h : worker.isDone = true) : worker.toPull = [] := by
  cases worker with
  | pulling deps => cases h
  | _ => rfl

theorem Within.moves (h : Within registry pipeline s) (hInv : PoolInv s)
    (hMove : Moves host registry pipeline s e t) : Within registry pipeline t where
  lockfile := hMove.lockfile_resolves h.lockfile
  job := by
    apply hMove.workers h.job (fun job hJob => hJob)
    exact fun job worker action worker' hWorker _ _ => h.job job worker hWorker
  pulls := by
    rcases hMove.lockfile with hSame | ⟨hMain, -⟩
    · rw [hSame]
      apply hMove.workers h.pulls (fun job _ => List.nil_subset _)
      exact fun job worker action worker' hWorker _ hWorks => hWorks.toPull (h.pulls job worker hWorker)
    · have hIdle : s.Idle := by
        rw [PoolInv, hMain] at hInv
        exact hInv
      apply hMove.workers (P := fun _ worker => worker.toPull ⊆ depsOf t.run.lockfile)
      · intro job worker hWorker
        rw [Worker.toPull_of_isDone (hIdle job worker hWorker)]
        exact List.nil_subset _
      · exact fun job _ => List.nil_subset _
      · exact fun job worker action worker' hWorker _ hWorks =>
          absurd hIdle (not_idle hWorker hWorks.not_done)
  artifacts := by
    apply hMove.workers h.artifacts
    · intro job _ rest hRest
      cases hRest
    · exact fun job worker action worker' hWorker _ hWorks =>
        hWorks.remaining (h.artifacts job worker hWorker)

/-! ## Runs that reach their levels -/

/-- Whether the resolution and the plan go well. -/
def Prepares (registry : RegistryClient) (pipeline : PipelineConfig) : Prop :=
  (∃ lockfile, Resolves registry pipeline lockfile) ∧ ∃ scheduler plan, Plans pipeline scheduler plan

def Prepared (registry : RegistryClient) (pipeline : PipelineConfig) (s : Execution) : Prop :=
  match s.main with
  | .resolved => ∃ lockfile, Resolves registry pipeline lockfile
  | .levels _ _ _ => Prepares registry pipeline
  | .submitting _ _ _ => Prepares registry pipeline
  | .collecting _ _ _ => Prepares registry pipeline
  | .ended => s.run.status = .succeeded → Prepares registry pipeline
  | _ => True

theorem StopsEarly.prepared (h : StopsEarly s t) : Prepared registry pipeline t := by
  cases h with
  | ends status error hStatus =>
    rintro rfl
    rcases hStatus with hStatus | hStatus <;> cases hStatus
  | aborts error => trivial

theorem Collects.prepared {scheduler : DAGScheduler} {rest : List (List String)} {integrityFailed : Bool}
    (hPrepared : Prepared registry pipeline s)
    (hMain : s.main = .collecting scheduler rest integrityFailed) {u : Execution}
    (h : Collects rest u t) : Prepared registry pipeline t := by
  rw [Prepared, hMain] at hPrepared
  rcases h.main with ⟨scheduler', integrityFailed', hMain'⟩ | ⟨error, hMain'⟩
  · rw [Prepared, hMain']
    exact hPrepared
  · rw [Prepared, hMain']
    trivial

theorem Moves.prepared (hPrepared : Prepared registry pipeline s)
    (h : Moves host registry pipeline s e t) : Prepared registry pipeline t := by
  cases h with
  | resolved lockfile hMain hResolves => exact ⟨lockfile, hResolves⟩
  | unresolved t hMain hNot hStops => exact hStops.prepared
  | planned scheduler plan hMain hPlans =>
    rw [Prepared, hMain] at hPrepared
    exact ⟨hPrepared, scheduler, plan, hPlans⟩
  | unplanned t hMain hNot hStops => exact hStops.prepared
  | skippedLevel scheduler level rest hMain =>
    rw [Prepared, hMain] at hPrepared
    exact hPrepared
  | refusedPool scheduler level rest hMain hLimit => trivial
  | openedPool scheduler level rest hMain hLimit =>
    rw [Prepared, hMain] at hPrepared
    exact hPrepared
  | submittedSkipped scheduler job todo rest hMain hSkipped =>
    rw [Prepared, hMain] at hPrepared
    exact hPrepared
  | submittedUnknown scheduler job todo rest hMain hUnknown => trivial
  | submitted scheduler job todo rest hMain hNot hJob =>
    rw [Prepared, hMain] at hPrepared
    exact hPrepared
  | submittedAll scheduler rest hMain =>
    rw [Prepared, hMain] at hPrepared
    exact hPrepared
  | worked job worker worker' action hWorker hPool hWorks => exact hPrepared
  | collectedResult scheduler rest integrityFailed job result published hMain hFresh hWorker =>
    exact (collectResult_collects scheduler rest integrityFailed job result published).prepared
      hPrepared hMain
  | collectedIntegrityError scheduler rest integrityFailed job name version expected actual hMain
      hFresh hWorker =>
    exact (collectIntegrityError_collects scheduler rest job).prepared hPrepared hMain
  | collectedException scheduler rest integrityFailed job message hMain hFresh hWorker => trivial
  | closedPool scheduler rest integrityFailed hMain hAll =>
    rw [Prepared, hMain] at hPrepared
    exact hPrepared
  | aborted error hMain hIdle =>
    intro hStatus
    cases hStatus
  | finished scheduler integrityFailed now hMain =>
    rw [Prepared, hMain] at hPrepared
    exact fun _ => hPrepared
  | interrupted message hEnded hAborting => trivial

theorem Moves.prepares (hPrepared : Prepared registry pipeline s)
    (hOld : ∀ job worker, s.futures.get? job = some worker → Prepares registry pipeline)
    (h : Moves host registry pipeline s e t) :
    ∀ job worker, t.futures.get? job = some worker → Prepares registry pipeline := by
  intro job worker hGet
  cases h.poolStep with
  | worked other worker₁ worker' action hOther hWorks => exact hOld other worker₁ hOther
  | main e t hHistory hPool hEvent =>
    cases hPool with
    | same hFutures => exact hOld job worker (hFutures ▸ hGet)
    | opened scheduler rest integrityFailed hMain hFutures =>
      rw [hFutures] at hGet
      cases hGet
    | queued scheduler other todo rest hMain hJob hFutures =>
      rw [Prepared, hMain] at hPrepared
      exact hPrepared

/-- There are workers only once there is a lockfile and a plan. -/
theorem prepares_run {events : List Event}
    (hRun : Run (Execution.Step host registry pipeline) .initial events s) :
    ∀ job worker, s.futures.get? job = some worker → Prepares registry pipeline := by
  have hKeeps := hRun.invariant fun s e t (h : Prepared registry pipeline s ∧
      ∀ job worker, s.futures.get? job = some worker → Prepares registry pipeline) hStep =>
    ⟨hStep.moves.prepared h.1, hStep.moves.prepares h.1 h.2⟩
  exact (hKeeps ⟨trivial, fun job worker hGet => by cases hGet⟩).2

/-! ## Every run -/

/-- What holds in every run, whatever happens outside. -/
structure Sound (registry : RegistryClient) (pipeline : PipelineConfig) (s : Execution) : Prop where
  pool : PoolInv s
  within : Within registry pipeline s
  prepared : Prepared registry pipeline s

theorem sound_initial : Sound registry pipeline .initial := ⟨poolInv_initial, within_initial, trivial⟩

theorem Sound.moves (hKnown : NeedsKnown pipeline.jobs) (h : Sound registry pipeline s)
    (hMove : Moves host registry pipeline s e t) : Sound registry pipeline t where
  pool := by
    apply hMove.poolInv _ h.pool
    intro scheduler plan hPlans
    obtain ⟨g, hPlanned⟩ := hPlans.planned hKnown
    exact hPlanned.nodup
  within := h.within.moves h.pool hMove
  prepared := hMove.prepared h.prepared

end Forge.Engine
