import Forge.Engine.Soundness
import Forge.Engine.Termination

/-! # Runs in a cooperative world

Every job exits 0, every request is answered as it should be, and the file of each artifact is in the
workspace once the job that produces it has ended. Then every run comes to its end.
-/
namespace Forge.Engine
open Forge.Python Forge.Registry Forge.Theory
set_option autoImplicit false

variable {host : Host} {registry : RegistryClient} {pipeline : PipelineConfig}
  {producer : PipelineArtifact → String} {s t : Execution} {e : Event}

/-- The registry holds no declared coordinate but those that it has accepted in this run. -/
def ActionCooperates (producer : PipelineArtifact → String) (history : History)
    (worker : Option Worker) : Action → Prop
  | .pull statusCode content => statusCode = 200 ∧
      ∀ dep rest, worker = some (.pulling (dep :: rest)) → sha256 content = dep.2.sha256
  | .exit exitCode => exitCode = 0
  | .lookup file => ∀ artifact rest published, worker = some (.walking (artifact :: rest) published) →
      producer artifact ∈ history.results.keys → file ≠ none
  | .handle statusCode _ => ∀ artifact data rest published,
      worker = some (.posting artifact data rest published) →
        statusCode = if history.accepted.contains artifact.coordinate then 409 else 201
  | .raise _ => False
  | _ => True

def Cooperates (host : Host) (producer : PipelineArtifact → String) (s : Execution) : Event → Prop
  | .enterLevel => 0 < host.concurrencyLimit
  | .work job action => ActionCooperates producer s.history (s.futures.get? job) action
  | .interrupt _ => False
  | _ => True

theorem Cooperates.quiet (h : Cooperates host producer s e) (job message : String) :
    e ≠ .work job (.raise message) := by
  rintro rfl
  exact h

/-- What a cooperative world must be able to do. -/
structure CanComplete (host : Host) (registry : RegistryClient) (pipeline : PipelineConfig) : Prop where
  limit : 0 < host.concurrencyLimit
  run : ∀ job ∈ pipeline.jobs.keys, host.canRun job = true
  hold : ∀ artifact ∈ pipeline.artifacts, host.canHold (relPath artifact) = true
  content : ∀ lockfile, Resolves registry pipeline lockfile → ∀ pkg ∈ lockfile.packages,
    ∃ content, sha256 content = pkg.sha256

/-! ## Nothing blocks -/

theorem mem_packages_of_mem_depsOf {lockfile : Lockfile} {dep : DepPull}
    (h : dep ∈ depsOf (some lockfile)) : ∃ pkg ∈ lockfile.packages, pkg.sha256 = dep.2.sha256 := by
  obtain ⟨pkg, hPkg, hDep⟩ := List.mem_map.mp (Dict.mem_of_mem_ofList h)
  exact ⟨pkg, hPkg, by rw [← hDep]⟩

theorem Within.content (h : Within registry pipeline s) (hCan : CanComplete host registry pipeline)
    {dep : DepPull} (hDep : dep ∈ depsOf s.run.lockfile) : ∃ content, sha256 content = dep.2.sha256 := by
  cases hLockfile : s.run.lockfile with
  | none =>
    rw [hLockfile] at hDep
    cases hDep
  | some lockfile =>
    rw [hLockfile] at hDep
    obtain ⟨pkg, hPkg, hSha⟩ := mem_packages_of_mem_depsOf hDep
    rw [← hSha]
    exact hCan.content lockfile (h.lockfile lockfile hLockfile) pkg hPkg

/-- A lookup finds a file exactly when it is present. -/
def Execution.Looks (s : Execution) (present : PipelineArtifact → Prop) : Event → Prop
  | .work job (.lookup file) => ∀ artifact rest published,
      s.futures.get? job = some (.walking (artifact :: rest) published) → (file ≠ none ↔ present artifact)
  | _ => True

theorem Within.answer {job : String} {worker : Worker} {present : PipelineArtifact → Prop}
    (h : Within registry pipeline s) (hCan : CanComplete host registry pipeline)
    (hWorker : s.futures.get? job = some worker) (hActive : worker.isActive = true)
    (hPresent : ∀ artifact, producer artifact ∈ s.history.results.keys → present artifact) :
    ∃ action worker', executeJob host pipeline s.run.lockfile job worker action = some worker' ∧
      Cooperates host producer s (.work job action) ∧ s.Looks present (.work job action) := by
  simp only [Cooperates, hWorker]
  cases worker with
  | queued => cases hActive
  | pulling deps =>
    cases deps with
    | nil =>
      have hRun := hCan.run job (h.job job _ hWorker)
      exact ⟨.launch, .running, by simp [executeJob, hRun], trivial, trivial⟩
    | cons dep rest =>
      obtain ⟨content, hSha⟩ := h.content hCan (h.pulls job _ hWorker List.mem_cons_self)
      refine ⟨.pull 200 content, .pulling rest, by simp [executeJob, pullDep, hSha], ⟨rfl, ?_⟩, trivial⟩
      intro dep' rest' hHere
      cases hHere
      exact hSha
  | running => exact ⟨.exit 0, _, rfl, rfl, trivial⟩
  | walking artifacts published =>
    cases artifacts with
    | nil => exact ⟨.finish, _, rfl, trivial, trivial⟩
    | cons artifact rest =>
      have hHold := hCan.hold artifact (h.artifacts job _ hWorker _ rfl List.mem_cons_self)
      by_cases hHere : present artifact
      · refine ⟨.lookup (some []), .posting artifact [] rest published, by simp [executeJob, hHold], ?_, ?_⟩
        · exact fun artifact' rest' published' _ _ => Option.some_ne_none _
        · intro artifact' rest' published' hWalking
          cases hWorker.symm.trans hWalking
          simpa using hHere
      · refine ⟨.lookup none, .walking rest published, rfl, ?_, ?_⟩
        · intro artifact' rest' published' hWalking hExited
          cases hWalking
          exact absurd (hPresent artifact hExited) hHere
        · intro artifact' rest' published' hWalking
          cases hWorker.symm.trans hWalking
          simpa using hHere
  | posting artifact data rest published =>
    refine ⟨.handle (if s.history.accepted.contains artifact.coordinate then 409 else 201) "", _, rfl, ?_,
      trivial⟩
    intro artifact' data' rest' published' hHere
    cases hHere
    rfl
  | answered artifact data statusCode text rest published =>
    refine ⟨.receive, ?_⟩
    simp only [executeJob]
    split
    · exact ⟨_, rfl, trivial, trivial⟩
    · exact ⟨_, rfl, trivial, trivial⟩
  | returned result published => cases hActive
  | raised exc => cases hActive

/-- Worlds that cooperate, and leave it open at every step for some files to be present and no others. -/
structure Serves (host : Host) (producer : PipelineArtifact → String) (Ok : Execution → Event → Prop) :
    Prop where
  cooperates : ∀ s e, Ok s e → Cooperates host producer s e
  present : ∀ s, ∃ present : PipelineArtifact → Prop,
    (∀ artifact, producer artifact ∈ s.history.results.keys → present artifact) ∧
      ∀ e, Cooperates host producer s e → s.Looks present e → Ok s e

theorem Serves.main {Ok : Execution → Event → Prop} (h : Serves host producer Ok)
    (hLimit : 0 < host.concurrencyLimit) (s : Execution) {e : Event}
    (hWork : ∀ job action, e ≠ .work job action) (hInterrupt : ∀ message, e ≠ .interrupt message) :
    Ok s e := by
  obtain ⟨present, -, hOk⟩ := h.present s
  cases e with
  | enterLevel => exact hOk _ hLimit trivial
  | work job action => exact absurd rfl (hWork job action)
  | interrupt message => exact absurd rfl (hInterrupt message)
  | _ => exact hOk _ trivial trivial

theorem Serves.start {Ok : Execution → Event → Prop} (h : Serves host producer Ok) (s : Execution)
    (job : String) : Ok s (.work job .start) := by
  obtain ⟨present, -, hOk⟩ := h.present s
  exact hOk _ trivial trivial

theorem Serves.answer {Ok : Execution → Event → Prop} {job : String} {worker : Worker}
    (hServes : Serves host producer Ok) (h : Within registry pipeline s)
    (hCan : CanComplete host registry pipeline) (hWorker : s.futures.get? job = some worker)
    (hActive : worker.isActive = true) :
    ∃ action worker', executeJob host pipeline s.run.lockfile job worker action = some worker' ∧
      Ok s (.work job action) := by
  obtain ⟨present, hPresent, hOk⟩ := hServes.present s
  obtain ⟨action, worker', hJob, hCooperates, hLooks⟩ := h.answer hCan hWorker hActive hPresent
  exact ⟨action, worker', hJob, hOk _ hCooperates hLooks⟩

theorem Serves.answers {Ok : Execution → Event → Prop} (hServes : Serves host producer Ok)
    (h : Within registry pipeline s) (hCan : CanComplete host registry pipeline) :
    Answers host pipeline Ok s where
  main _ hWork hInterrupt := hServes.main hCan.limit s hWork hInterrupt
  start job := hServes.start s job
  worker _ _ hWorker hActive := hServes.answer h hCan hWorker hActive

/-! ## Files that are not there too early -/

/-- The container of the job runs, or has exited. -/
def Execution.Underway (s : Execution) (job : String) : Prop :=
  job ∈ s.history.results.keys ∨ s.futures.get? job = some .running

/-- All jobs exit 0. -/
def allPass (_job : String) : Outcome := .finished 0

/-! ## An artifact and a job for examples -/

def appArtifact : PipelineArtifact := ⟨"app", "1.0.0", "./dist/app.tar.gz"⟩

end Forge.Engine
