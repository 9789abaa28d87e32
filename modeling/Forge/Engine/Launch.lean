import Forge.Engine.RecordsRun
import Forge.Registry.Resolution

/-! # Before a container is started

A worker that has got through `pull_deps` hands its job to the runner. Its needs were settled when the job
was submitted, and a need that had not succeeded would have had the job skipped.
-/
namespace Forge.Engine
open Forge.Python Forge.Registry Forge.Theory Relation
set_option autoImplicit false

variable {host : Host} {registry : RegistryClient} {pipeline : PipelineConfig} {s t : Execution}
  {e : Event} {events : List Event} {job : String}

/-- The worker of the job is past `pull_deps`, and its next call is `run_job`. -/
def Execution.AsksRunner (s : Execution) (job : String) : Prop :=
  s.futures.get? job = some (.pulling [])

/-- A download of the locked package with the status and the checksum it should have. -/
def LockedPackage.Verifies (pkg : LockedPackage) (answer : Nat × Bytes) : Prop :=
  answer.1 = 200 ∧ sha256 answer.2 = pkg.sha256

/-- What has happened when the runner is asked to start the container of a job. -/
structure Cleared (pipeline : PipelineConfig) (events : List Event) (run : RunState) (job : String) :
    Prop where
  needs : ∀ dep, TransGen (Needs pipeline.jobs) job dep → Completed events run.jobs dep
  pulls : ∃ lockfile, run.lockfile = some lockfile ∧
    List.Forall₂ LockedPackage.Verifies lockfile.packages (answersTo job events)

theorem asksRunner_of_launch (h : Execution.Step host registry pipeline s (.work job .launch) t) :
    s.AsksRunner job := by
  cases h.moves with
  | worked job worker worker' action hWorker hPool hWorks =>
    cases hWorks with
    | launched hRun => exact hWorker

/-! ## The lockfile of a run with workers -/

/-- Where a run is that has no lockfile. -/
def Unlocked (s : Execution) : Prop :=
  s.futures = .empty ∧ (s.main = .queued ∨ s.main.isAborting = true ∨ s.main.isEnded = true)

theorem StopsEarly.main (h : StopsEarly s t) : t.main.isAborting = true ∨ t.main.isEnded = true := by
  cases h with
  | ends status error hStatus => exact .inr rfl
  | aborts error => exact .inl rfl

theorem Moves.unlocked (h : Moves host registry pipeline s e t)
    (hBefore : s.run.lockfile = none → Unlocked s) (hNone : t.run.lockfile = none) : Unlocked t := by
  have hOld : s.run.lockfile = none := by
    rcases h.lockfile with hSame | ⟨-, lockfile, hSome, -⟩
    · exact hSame ▸ hNone
    · cases hNone.symm.trans hSome
  obtain ⟨hFutures, hMain⟩ := hBefore hOld
  cases h with
  | resolved lockfile hQueued hResolves => cases hNone
  | unresolved t hQueued hNot hStops => exact ⟨hStops.futures.trans hFutures, .inr hStops.main⟩
  | worked job worker worker' action hWorker hPool hWorks =>
    rw [hFutures] at hWorker
    cases hWorker
  | aborted error hAborting hIdle => exact ⟨hFutures, .inr (.inr rfl)⟩
  | interrupted message hEnded hAborting => exact ⟨hFutures, .inr (.inl rfl)⟩
  | _ => simp_all [Main.isAborting, Main.isEnded]

theorem lockfile_of_worker {worker : Worker}
    (hRun : Run (Execution.Step host registry pipeline) .initial events s)
    (hWorker : s.futures.get? job = some worker) : ∃ lockfile, s.run.lockfile = some lockfile := by
  have hKeeps := hRun.invariant fun s e t (h : s.run.lockfile = none → Unlocked s) hStep =>
    hStep.moves.unlocked h
  rw [← Option.isSome_iff_exists, Option.isSome_iff_ne_none]
  intro hNone
  have hUnlocked := hKeeps (fun _ => ⟨rfl, .inl rfl⟩) hNone
  rw [hUnlocked.1] at hWorker
  cases hWorker

/-- The packages that a job pulls are those of the lockfile, in its order. -/
theorem depsOf_eq {lockfile : Lockfile} (hResolves : Resolves registry pipeline lockfile) :
    depsOf (some lockfile) =
      lockfile.packages.map fun pkg => (pkg.name, ⟨pkg.version, pkg.sha256⟩) := by
  obtain ⟨roots, st, hFinal, rfl⟩ := resolve_ok hResolves
  apply Dict.entries_ofList
  rw [List.map_map]
  change ((buildLockfile st.resolved).packages.map LockedPackage.name).Nodup
  rw [hFinal.names_eq]
  exact (sortNames_pairwise st.resolved.nodup).imp ne_of_lt

theorem Prepares.planned (h : Prepares registry pipeline) :
    ∃ (g : JobGraph) (scheduler : DAGScheduler) (plan : List (List String)),
      Planned g pipeline scheduler plan := by
  obtain ⟨-, scheduler, plan, hPlans⟩ := h
  obtain ⟨g, hPlanned⟩ := hPlans.exists_planned
  exact ⟨g, scheduler, plan, hPlanned⟩

theorem lockfile_resolves (hRun : Run (Execution.Step host registry pipeline) .initial events s)
    {lockfile : Lockfile} (hSome : s.run.lockfile = some lockfile) :
    Resolves registry pipeline lockfile := by
  have hKeeps := hRun.invariant fun s e t
      (h : ∀ lockfile, s.run.lockfile = some lockfile → Resolves registry pipeline lockfile) hStep =>
    hStep.moves.lockfile_resolves h
  exact hKeeps (fun lockfile h => by cases h) lockfile hSome

theorem cleared_at_runner (hRun : Run (Execution.Step host registry pipeline) .initial events s)
    (hAsks : s.AsksRunner job) : Cleared pipeline events s.run job := by
  have hPrepares := prepares_run hRun job _ hAsks
  obtain ⟨g, scheduler, plan, hPlanned⟩ := hPrepares.planned
  obtain ⟨-, hRecords⟩ := records_run hPlanned hRun
  obtain ⟨lockfile, hLockfile⟩ := lockfile_of_worker hRun hAsks
  constructor
  · rw [hPlanned.jobs_eq]
    exact hRecords.needs job _ hAsks
  · obtain ⟨-, pulled, hSplit, hVerified⟩ := hRecords.fits job _ hAsks
    refine ⟨lockfile, hLockfile, ?_⟩
    rw [List.append_nil, hLockfile, depsOf_eq (lockfile_resolves hRun hLockfile)] at hSplit
    rw [← hSplit, List.forall₂_map_left_iff] at hVerified
    exact hVerified

def libraryRegistry : RegistryClient :=
  InMemoryRegistry.client
    (.ofList [("lib-core", .ofList [published "lib-core" "1.0.0" (sha256 [1]) []])])

def linkedPipeline : PipelineConfig :=
  { releasePipeline [] with dependencies := [entryOf "lib-core" "^1.0.0"] }

/-- Every worker pulls `lib-core` first. -/
def linkedEvents : List Event :=
  [.resolve, .plan, .enterLevel, .submit, .submit, .submit, .work "build" .start, .work "lint" .start,
    .work "lint" (.pull 200 [1]), .work "build" (.pull 200 [1]), .work "lint" .launch, .work "build" .launch,
    .work "lint" (.exit 0), .work "lint" .finish, .collect "lint", .work "build" (.exit 0),
    .work "build" .finish, .collect "build", .closePool, .enterLevel, .submit, .submit, .work "test" .start,
    .work "test" (.pull 200 [1])]

/-- `build` has succeeded and `lib-core` is verified when the tests are about to start. -/
theorem cleared_at_runner_release : ∃ s : Execution,
    Run (Execution.Step exampleHost libraryRegistry linkedPipeline) .initial linkedEvents s ∧
      s.run.lockfile = some ⟨[⟨"lib-core", "1.0.0", sha256 [1]⟩]⟩ ∧
      TransGen (Needs linkedPipeline.jobs) "test" "build" ∧ s.AsksRunner "test" ∧
      Cleared linkedPipeline linkedEvents s.run "test" := by
  have hSome : ((execute (executePipeline exampleHost libraryRegistry linkedPipeline) .initial
      linkedEvents).any fun s => s.run.lockfile = some ⟨[⟨"lib-core", "1.0.0", sha256 [1]⟩]⟩ ∧
        s.futures.get? "test" = some (.pulling [])) = true := by decide +kernel
  obtain ⟨s, hExecute, hEnd⟩ := (Option.any_eq_true _ _).mp hSome
  obtain ⟨hLockfile, hAsks⟩ := of_decide_eq_true hEnd
  have hRun := run_stepsOf_iff.mpr hExecute
  have hNeeds : "build" ∈ needsOf linkedPipeline.jobs "test" := by decide
  exact ⟨s, hRun, hLockfile, .single hNeeds, hAsks, cleared_at_runner hRun hAsks⟩

end Forge.Engine
