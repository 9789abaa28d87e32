import Forge.Engine.Cooperation
import Forge.Engine.Publishing

/-! # The walks over the artifacts

In a cooperative world the walk of the job that produces an artifact finds it. So the artifacts of a job
whose entry says that it succeeded have been found.
-/
namespace Forge.Engine
open Forge.Python Forge.Registry Forge.Theory
set_option autoImplicit false

variable {host : Host} {registry : RegistryClient} {pipeline : PipelineConfig}
  {producer : PipelineArtifact → String} {s t : Execution} {e : Event}

/-! ## The entries of jobs that succeeded -/

theorem get?_foldl_setSkipped {names : List String} {jobs : Dict String JobEntry} {job : String}
    {entry : JobEntry} (h : (names.foldl setSkipped jobs).get? job = some entry) :
    entry = skippedEntry ∨ jobs.get? job = some entry := by
  rw [foldl_setSkipped_get?] at h
  split at h
  · exact .inl (Option.some.inj h).symm
  · exact .inr h

theorem collectResult_entry {scheduler : DAGScheduler} {rest : List (List String)}
    {integrityFailed : Bool} {job other : String} {result : JobResult}
    {published : List PublishedArtifact} {entry : JobEntry}
    (h : (s.collectResult scheduler rest integrityFailed job result published).run.jobs.get? other =
      some entry) :
    entry = skippedEntry ∨ s.run.jobs.get? other = some entry ∨
      other = job ∧ entry.status = .job result.status := by
  have hSet : ∀ {entry : JobEntry}, (s.run.jobs.set job
      { status := .job result.status, exitCode := some result.exitCode, artifacts := some published }).get?
        other = some entry →
      s.run.jobs.get? other = some entry ∨ other = job ∧ entry.status = .job result.status := by
    intro entry hGet
    rw [Dict.get?_set] at hGet
    split at hGet
    · rename_i hSame
      cases hGet
      exact .inr ⟨hSame, rfl⟩
    · exact .inl hGet
  simp only [Execution.collectResult] at h
  split at h
  · exact .inr (hSet h)
  · simp only [copySkipped_eq] at h
    rcases get?_foldl_setSkipped h with hSkipped | hOld
    · exact .inl hSkipped
    · exact .inr (hSet hOld)

theorem collectIntegrityError_entry {scheduler : DAGScheduler} {rest : List (List String)}
    {job other : String} {entry : JobEntry}
    (h : (s.collectIntegrityError scheduler rest job).run.jobs.get? other = some entry) :
    entry = integrityEntry ∨ s.run.jobs.get? other = some entry := by
  have hSet : (s.run.jobs.set job integrityEntry).get? other = some entry := by
    simp only [Execution.collectIntegrityError] at h
    split at h
    · exact h
    · exact h
  rw [Dict.get?_set] at hSet
  split at hSet
  · exact .inl (Option.some.inj hSet).symm
  · exact .inr hSet

/-- The entry of a job that succeeded comes from the result of its worker. -/
theorem Moves.succeeded_entry {job : String} {entry : JobEntry}
    (h : Moves host registry pipeline s e t) (hGet : t.run.jobs.get? job = some entry)
    (hStatus : entry.status = .job .succeeded) : s.run.jobs.get? job = some entry ∨
      ∃ published, s.futures.get? job = some (.returned ⟨0⟩ published) := by
  cases h with
  | unresolved t hMain hNot hStops => exact .inl (by cases hStops <;> exact hGet)
  | unplanned t hMain hNot hStops => exact .inl (by cases hStops <;> exact hGet)
  | skippedLevel scheduler level rest hMain =>
    rcases get?_foldl_setSkipped hGet with rfl | hOld
    · cases hStatus
    · exact .inl hOld
  | submittedSkipped scheduler name todo rest hMain hSkipped =>
    rw [Dict.get?_set] at hGet
    split at hGet
    · cases hGet
      cases hStatus
    · exact .inl hGet
  | collectedResult scheduler rest integrityFailed name result published hMain hFresh hWorker =>
    rcases collectResult_entry hGet with rfl | hOld | ⟨rfl, hResult⟩
    · cases hStatus
    · exact .inl hOld
    · right
      rw [hStatus, EntryStatus.job.injEq] at hResult
      have hExit := JobResult.status_eq_succeeded.mp hResult.symm
      refine ⟨published, ?_⟩
      rw [hWorker, show result = ⟨0⟩ from congrArg JobResult.mk hExit]
  | collectedIntegrityError scheduler rest integrityFailed name name' version expected actual hMain
      hFresh hWorker =>
    rcases collectIntegrityError_entry hGet with rfl | hOld
    · cases hStatus
    · exact .inl hOld
  | _ => exact .inl hGet

/-! ## The walks over the artifacts -/

theorem History.record_results (history : History) (job : String) (worker : Worker) (action : Action) :
    history.results.keys ⊆ (history.record job worker action).results.keys := by
  intro other hOther
  simp only [History.record]
  split
  · exact Dict.mem_keys_set.mpr (.inr hOther)
  · exact hOther
  · split <;> exact hOther
  · exact hOther

theorem History.record_found (history : History) (job : String) (worker : Worker) (action : Action) :
    history.found ⊆ (history.record job worker action).found := by
  intro c hc
  simp only [History.record]
  split
  · exact hc
  · exact List.mem_append_left _ hc
  · split <;> exact hc
  · exact hc

/-- A job that exited 0 has found the artifacts that it produces, or has them before it. -/
def Walks (pipeline : PipelineConfig) (producer : PipelineArtifact → String) (history : History)
    (job : String) (worker : Worker) : Prop :=
  ∀ rest, worker.remaining = some rest → job ∈ history.results.keys ∧
    ∀ artifact ∈ pipeline.artifacts, producer artifact = job →
      artifact ∈ rest ∨ artifact.coordinate ∈ history.found

theorem Walks.record {history : History} {job : String} {worker : Worker}
    (h : Walks pipeline producer history job worker) (other : String) (worker' : Worker)
    (action : Action) : Walks pipeline producer (history.record other worker' action) job worker := by
  intro rest hRest
  obtain ⟨hExited, hWalked⟩ := h rest hRest
  refine ⟨history.record_results other worker' action hExited, ?_⟩
  intro artifact hArtifact hProducer
  exact (hWalked artifact hArtifact hProducer).imp_right fun hFound =>
    history.record_found other worker' action hFound

theorem Works.walks {lockfile : Option Lockfile} {job : String} {worker worker' : Worker}
    {action : Action} {history : History}
    (h : Works host pipeline lockfile job worker action worker')
    (hCooperates : ActionCooperates producer history (some worker) action)
    (hWalks : Walks pipeline producer history job worker) :
    Walks pipeline producer (history.record job worker action) job worker' := by
  have hRecord := hWalks.record job worker action
  intro rest hRest
  cases h with
  | succeeded =>
    cases hRest
    exact ⟨Dict.mem_keys_set.mpr (.inl rfl), fun artifact hArtifact _ => .inl hArtifact⟩
  | failed exitCode hExit =>
    simp only [Worker.remaining, hExit, if_false] at hRest
    cases hRest
  | absent artifact rest' published =>
    cases hRest
    obtain ⟨hExited, hWalked⟩ := hWalks _ rfl
    refine ⟨hExited, ?_⟩
    intro other hOther hProducer
    rcases hWalked other hOther hProducer with hAhead | hFound
    · rcases List.mem_cons.mp hAhead with rfl | hRest
      · exact absurd rfl (hCooperates other rest published rfl (hProducer ▸ hExited))
      · exact .inl hRest
    · exact .inr hFound
  | found artifact rest' published data hHold =>
    cases hRest
    obtain ⟨hExited, hWalked⟩ := hRecord _ rfl
    refine ⟨hExited, ?_⟩
    intro other hOther hProducer
    rcases hWalked other hOther hProducer with hAhead | hFound
    · rcases List.mem_cons.mp hAhead with rfl | hRest
      · exact .inr (List.mem_append_right _ List.mem_cons_self)
      · exact .inl hRest
    · exact .inr hFound
  | handled artifact data rest' published statusCode text => exact hRecord rest hRest
  | created artifact data statusCode text rest' published hStatus => exact hRecord rest hRest
  | finished published => exact hRecord rest hRest
  | _ => cases hRest

/-- A job that succeeded has exited, and its artifacts have been found. -/
def Recorded (pipeline : PipelineConfig) (producer : PipelineArtifact → String) (s : Execution) : Prop :=
  ∀ job entry, s.run.jobs.get? job = some entry → entry.status = .job .succeeded →
    job ∈ s.history.results.keys ∧ ∀ artifact ∈ pipeline.artifacts, producer artifact = job →
      artifact.coordinate ∈ s.history.found

theorem PoolStep.results_subset (h : PoolStep host pipeline s e t) :
    s.history.results.keys ⊆ t.history.results.keys := by
  cases h with
  | worked job worker worker' action hWorker hWorks => exact s.history.record_results job worker action
  | main e t hHistory hPool hEvent =>
    rw [hHistory]
    exact List.Subset.refl _

theorem Recorded.moves (h : Recorded pipeline producer s)
    (hWalks : ∀ job worker, s.futures.get? job = some worker →
      Walks pipeline producer s.history job worker)
    (hMove : Moves host registry pipeline s e t) : Recorded pipeline producer t := by
  intro job entry hGet hStatus
  have hBefore : job ∈ s.history.results.keys ∧ ∀ artifact ∈ pipeline.artifacts,
      producer artifact = job → artifact.coordinate ∈ s.history.found := by
    rcases hMove.succeeded_entry hGet hStatus with hOld | ⟨published, hWorker⟩
    · exact h job entry hOld hStatus
    · obtain ⟨hExited, hWalked⟩ := hWalks job _ hWorker [] rfl
      exact ⟨hExited, fun artifact hArtifact hProducer =>
        (hWalked artifact hArtifact hProducer).resolve_left List.not_mem_nil⟩
  refine ⟨hMove.poolStep.results_subset hBefore.1, fun artifact hArtifact hProducer => ?_⟩
  have hGrows := hMove.poolStep.found_subset artifact.coordinate
  have hPositive := List.count_pos_iff.mpr (hBefore.2 artifact hArtifact hProducer)
  exact List.count_pos_iff.mp (by omega)

end Forge.Engine
