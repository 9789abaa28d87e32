import Forge.Engine.Entries
import Forge.Engine.Progress
import Forge.Registry.Server

/-! # What clients see of a run over time

`GET /runs/{run_id}` shows the state of a run while another thread changes it, one field after the other. An
entry is recorded once, and the status goes on until it is terminal, so no later answer takes back what an
earlier one has told.
-/
namespace Forge.Engine
open Forge.Python Forge.Registry Forge.Theory
set_option autoImplicit false

variable {host : Host} {registry : RegistryClient} {pipeline : PipelineConfig} {g : JobGraph}
  {plan : List (List String)} {events : List Event} {e : Event} {s t : Execution} {job other : String}
  {entry : JobEntry}

/-! ## Entries are kept -/

theorem foldl_setSkipped_kept {jobs : Dict String JobEntry} (names : List String)
    (h : jobs.get? job = some entry) : (names.foldl setSkipped jobs).get? job = some entry := by
  rw [foldl_setSkipped_get?, if_neg fun hNew => hNew.2 (Dict.mem_keys_of_get? h), h]

theorem set_kept {jobs : Dict String JobEntry} (hOther : job ≠ other) (new : JobEntry)
    (h : jobs.get? job = some entry) : (jobs.set other new).get? job = some entry := by
  rw [Dict.get?_set, if_neg hOther, h]

theorem collectResult_kept {scheduler : DAGScheduler} {rest : List (List String)} {integrityFailed : Bool}
    {result : JobResult} {published : List PublishedArtifact} (hOther : job ≠ other)
    (h : s.run.jobs.get? job = some entry) :
    (s.collectResult scheduler rest integrityFailed other result published).run.jobs.get? job = some entry := by
  simp only [Execution.collectResult]
  split
  · exact set_kept hOther _ h
  · simp only [copySkipped_eq]
    exact foldl_setSkipped_kept _ (set_kept hOther _ h)

theorem collectIntegrityError_kept {scheduler : DAGScheduler} {rest : List (List String)} (hOther : job ≠ other)
    (h : s.run.jobs.get? job = some entry) :
    (s.collectIntegrityError scheduler rest other).run.jobs.get? job = some entry := by
  simp only [Execution.collectIntegrityError]
  split
  · exact set_kept hOther _ h
  · exact set_kept hOther _ h

/-- A job whose future is yet to be collected has no entry. -/
theorem RecordsInv.notMem_of_fresh {scheduler : DAGScheduler} {rest : List (List String)} {integrityFailed : Bool}
    (h : RecordsInv g plan events s) (hMain : s.main = .collecting scheduler rest integrityFailed)
    (hFresh : job ∉ s.collected) (hJob : job ∈ s.futures.keys) : job ∉ s.run.jobs.keys := by
  have hPhase := h.phase
  rw [RecordsPhase, hMain] at hPhase
  obtain ⟨pre, level, -, hOpen⟩ := hPhase
  exact hOpen.records.queued job (hOpen.uncollected job hJob hFresh)

/-- A job that is yet to be submitted has done nothing. -/
theorem RecordsInv.untouched_of_todo (hLevels : Levels g.jobs [] plan) (h : RecordsInv g plan events s)
    (hPool : PoolInv s) {scheduler : DAGScheduler} {todo : List String} {rest : List (List String)}
    (hMain : s.main = .submitting scheduler todo rest) (hJob : job ∈ todo) : Untouched events job := by
  have hPhase := h.phase
  rw [RecordsPhase, hMain] at hPhase
  rw [PoolInv, hMain] at hPool
  obtain ⟨pre, sub, hSplit, hOpen⟩ := hPhase
  have hLevel := (hLevels.mem_level_iff hSplit job).mp (List.mem_append_right sub hJob)
  exact hOpen.untouched hLevel.2 (hPool.2.2.1 job hJob)

/-- The only entry of a job that has done nothing. -/
theorem Reports.eq_skipped (h : Reports events job entry) (hUntouched : Untouched events job) :
    entry = skippedEntry := by
  cases h with
  | executed exitCode published hExit => exact absurd hExit (hUntouched _)
  | corrupted content hPull hUnexited => exact absurd hPull (hUntouched _)
  | skipped hSkipped => rfl

theorem RecordsInv.kept (hLevels : Levels g.jobs [] plan) (h : RecordsInv g plan events s) (hPool : PoolInv s)
    (hMove : Moves host registry pipeline s e t) (hGet : s.run.jobs.get? job = some entry) :
    t.run.jobs.get? job = some entry := by
  cases hMove with
  | unresolved t hMain hNot hStops => cases hStops <;> exact hGet
  | unplanned t hMain hNot hStops => cases hStops <;> exact hGet
  | skippedLevel scheduler level rest hMain => exact foldl_setSkipped_kept level hGet
  | submittedSkipped scheduler name todo rest hMain hSkipped =>
    rcases eq_or_ne job name with rfl | hOther
    · have hUntouched := h.untouched_of_todo hLevels hPool hMain List.mem_cons_self
      have hPhase := h.phase
      rw [RecordsPhase, hMain] at hPhase
      obtain ⟨pre, sub, -, hOpen⟩ := hPhase
      rw [(hOpen.records.entries job entry hGet).2.eq_skipped hUntouched]
      exact (Dict.get?_set ..).trans (if_pos rfl)
    · exact set_kept hOther skippedEntry hGet
  | collectedResult scheduler rest integrityFailed name result published hMain hFresh hWorker =>
    have hNone := h.notMem_of_fresh hMain hFresh (Dict.mem_keys_of_get? hWorker)
    refine collectResult_kept ?_ hGet
    rintro rfl
    exact hNone (Dict.mem_keys_of_get? hGet)
  | collectedIntegrityError scheduler rest integrityFailed name name' version expected actual hMain hFresh
      hWorker =>
    have hNone := h.notMem_of_fresh hMain hFresh (Dict.mem_keys_of_get? hWorker)
    refine collectIntegrityError_kept ?_ hGet
    rintro rfl
    exact hNone (Dict.mem_keys_of_get? hGet)
  | _ => exact hGet

/-! ## New entries -/

theorem Untouched.of_append {later : List Event} (h : Untouched (events ++ later) job) : Untouched events job :=
  fun action hMem => h action (List.mem_append_left later hMem)

theorem Reports.untouched (h : Reports events job entry) (hSkipped : entry = skippedEntry) :
    Untouched events job := by
  cases h with
  | executed exitCode published hExit => cases congrArg JobEntry.exitCode hSkipped
  | corrupted content hPull hUnexited => cases congrArg JobEntry.exitCode hSkipped
  | skipped hUntouched => exact hUntouched

/-- The entries tell what has happened, up to the end of the run. -/
theorem RecordsInv.reports (h : RecordsInv g plan events s) (hAborting : s.main.isAborting = false)
    (hEnded : s.main.isEnded = false) (hGet : s.run.jobs.get? job = some entry) : Reports events job entry := by
  have hPhase := h.phase
  rw [RecordsPhase] at hPhase
  cases hMain : s.main with
  | levels scheduler rest integrityFailed =>
    rw [hMain] at hPhase
    obtain ⟨pre, -, hBetween⟩ := hPhase
    exact (hBetween.reported job entry hGet).2
  | submitting scheduler todo rest =>
    rw [hMain] at hPhase
    obtain ⟨pre, sub, -, hOpen⟩ := hPhase
    exact (hOpen.records.entries job entry hGet).2
  | collecting scheduler rest integrityFailed =>
    rw [hMain] at hPhase
    obtain ⟨pre, level, -, hOpen⟩ := hPhase
    exact (hOpen.records.entries job entry hGet).2
  | aborting error => simp [hMain, Main.isAborting] at hAborting
  | ended => simp [hMain, Main.isEnded] at hEnded
  | _ =>
    rw [hMain] at hPhase
    rw [hPhase.2.1] at hGet
    cases hGet

/-- The entry that the main thread makes of what a worker has come to. -/
inductive Worker.Yields : Worker → JobEntry → Prop where
  | result (result : JobResult) (published : List PublishedArtifact) :
      Yields (.returned result published) (resultEntry result published)
  | integrityError (name version expected actual : String) :
      Yields (.raised (.integrityError name version expected actual)) integrityEntry

/-- A new entry is that of the job that is collected, or of a job that never starts. -/
theorem RecordsInv.new_entry (h : RecordsInv g plan events s) (h' : RecordsInv g plan (events ++ [e]) t)
    (hMove : Moves host registry pipeline s e t) (hGet : t.run.jobs.get? job = some entry) :
    s.run.jobs.get? job = some entry ∨ (entry = skippedEntry ∧ Untouched events job) ∨
      ∃ worker, e = .collect job ∧ s.futures.get? job = some worker ∧ job ∉ s.collected ∧ worker.Yields entry := by
  have hSkips : t.main.isAborting = false → t.main.isEnded = false → entry = skippedEntry →
      entry = skippedEntry ∧ Untouched events job := by
    intro hAborting hEnded hSkipped
    exact ⟨hSkipped, ((h'.reports hAborting hEnded hGet).untouched hSkipped).of_append⟩
  cases hMove with
  | unresolved t hMain hNot hStops => exact .inl (by cases hStops <;> exact hGet)
  | unplanned t hMain hNot hStops => exact .inl (by cases hStops <;> exact hGet)
  | skippedLevel scheduler level rest hMain =>
    rcases entry_of_foldl_setSkipped hGet with hOld | hNew
    · exact .inl hOld
    · exact .inr (.inl (hSkips rfl rfl hNew))
  | submittedSkipped scheduler name todo rest hMain hSkipped =>
    rcases entry_of_set hGet with hOld | ⟨-, hNew⟩
    · exact .inl hOld
    · exact .inr (.inl (hSkips rfl rfl hNew))
  | collectedResult scheduler rest integrityFailed name result published hMain hFresh hWorker =>
    rcases collectResult_entries hGet with hOld | hNew | ⟨rfl, rfl⟩
    · exact .inl hOld
    · have hEnded := (collectResult_collects (s := { s with collected := name :: s.collected }) scheduler rest
        integrityFailed name result published).isEnded
      exact .inr (.inl (hSkips (h.collectedResult hMain hFresh hWorker).2 hEnded hNew))
    · exact .inr (.inr ⟨_, rfl, hWorker, hFresh, .result result published⟩)
  | collectedIntegrityError scheduler rest integrityFailed name name' version expected actual hMain hFresh
      hWorker =>
    rcases collectIntegrityError_entries hGet with hOld | ⟨rfl, rfl⟩
    · exact .inl hOld
    · exact .inr (.inr ⟨_, rfl, hWorker, hFresh, .integrityError name' version expected actual⟩)
  | _ => exact .inl hGet

/-! ## Done workers -/

/-- A worker whose future has been collected, or whose job has an entry, takes no more steps. -/
structure Quiet (s : Execution) : Prop where
  recorded : ∀ job ∈ s.run.jobs.keys, ∀ worker, s.futures.get? job = some worker → worker.isDone = true
  collected : ∀ job ∈ s.collected, ∀ worker, s.futures.get? job = some worker → worker.isDone = true

theorem quiet_of_idle (h : s.Idle) : Quiet s := ⟨fun job _ => h job, fun job _ => h job⟩

theorem RecordsInv.quiet (h : RecordsInv g plan events s) (hPool : PoolInv s)
    (hAborting : s.main.isAborting = false) : Quiet s := by
  have hPhase := h.phase
  rw [RecordsPhase] at hPhase
  rw [PoolInv] at hPool
  cases hMain : s.main with
  | levels scheduler rest integrityFailed =>
    rw [hMain] at hPool
    exact quiet_of_idle hPool.2
  | submitting scheduler todo rest =>
    rw [hMain] at hPhase hPool
    obtain ⟨pre, sub, -, hOpen⟩ := hPhase
    have hCollected : s.collected = [] := hPool.2.2.2
    have hNone : ∀ job, job ∉ s.collected := by simp [hCollected]
    refine ⟨fun job hJob worker hWorker => ?_, fun job hJob => absurd hJob (hNone job)⟩
    have hQueued := hOpen.uncollected job (Dict.mem_keys_of_get? hWorker) (hNone job)
    exact absurd hJob (hOpen.records.queued job hQueued)
  | collecting scheduler rest integrityFailed =>
    rw [hMain] at hPool
    refine ⟨fun job hJob worker hWorker => ?_, hPool.2⟩
    by_cases hCollected : job ∈ s.collected
    · exact hPool.2 job hCollected worker hWorker
    · exact absurd hJob (h.notMem_of_fresh hMain hCollected (Dict.mem_keys_of_get? hWorker))
  | aborting error => simp [hMain, Main.isAborting] at hAborting
  | _ =>
    rw [hMain] at hPool
    exact quiet_of_idle hPool

theorem Quiet.worked (h : Quiet s) {worker worker' : Worker} {action : Action}
    (hWorker : s.futures.get? job = some worker) (hBusy : worker.isDone = false) :
    Quiet (s.worked job worker action worker') := by
  have hOther : ∀ k w, (∀ w', s.futures.get? k = some w' → w'.isDone = true) →
      (s.worked job worker action worker').futures.get? k = some w → w.isDone = true := by
    intro k w hDone hGet
    rw [Execution.worked, Dict.get?_set] at hGet
    split at hGet
    · rename_i hSame
      subst hSame
      rw [hDone worker hWorker] at hBusy
      cases hBusy
    · exact hDone w hGet
  exact ⟨fun k hk w => hOther k w (h.recorded k hk), fun k hk w => hOther k w (h.collected k hk)⟩

/-- On the way out with an exception nothing is recorded, and no new call is submitted. -/
theorem RecordsInv.quiet_aborting (hRecords : RecordsInv g plan events s) (h : Quiet s)
    (hMove : Moves host registry pipeline s e t) (hAborting : t.main.isAborting = true) : Quiet t := by
  cases hMove with
  | unresolved t hMain hNot hStops =>
    cases hStops with
    | ends status error hStatus => cases hAborting
    | aborts error => exact ⟨h.recorded, h.collected⟩
  | unplanned t hMain hNot hStops =>
    cases hStops with
    | ends status error hStatus => cases hAborting
    | aborts error => exact ⟨h.recorded, h.collected⟩
  | worked job worker worker' action hWorker hPool hWorks => exact h.worked hWorker hWorks.not_done
  | refusedPool scheduler level rest hMain hLimit => exact ⟨h.recorded, h.collected⟩
  | submittedUnknown scheduler job todo rest hMain hUnknown => exact ⟨h.recorded, h.collected⟩
  | interrupted message hEnded hNot => exact ⟨h.recorded, h.collected⟩
  | collectedResult scheduler rest integrityFailed job result published hMain hFresh hWorker =>
    rw [(hRecords.collectedResult hMain hFresh hWorker).2] at hAborting
    cases hAborting
  | collectedIntegrityError scheduler rest integrityFailed job name version expected actual hMain hFresh
      hWorker =>
    rw [(hRecords.collectedIntegrityError hMain hFresh hWorker).2] at hAborting
    cases hAborting
  | collectedException scheduler rest integrityFailed job message hMain hFresh hWorker =>
    refine ⟨h.recorded, fun other hOther worker hGet => ?_⟩
    rcases List.mem_cons.mp hOther with rfl | hOld
    · cases hWorker.symm.trans hGet
      rfl
    · exact h.collected other hOld worker hGet
  | _ => cases hAborting

/-- A run whose pipeline has no plan records nothing. -/
theorem Poolless.same_jobs (hPoolless : Poolless s) (h : Moves host registry pipeline s e t) :
    t.run.jobs = s.run.jobs := by
  have hMain := hPoolless.2
  cases h with
  | unresolved t hQueued hNot hStops => cases hStops <;> rfl
  | unplanned t hResolved hNot hStops => cases hStops <;> rfl
  | skippedLevel scheduler level rest hLevels => simp [hLevels, Main.isAborting, Main.isEnded] at hMain
  | submittedSkipped scheduler name todo rest hSubmitting hSkipped =>
    simp [hSubmitting, Main.isAborting, Main.isEnded] at hMain
  | collectedResult scheduler rest integrityFailed name result published hCollecting hFresh hWorker =>
    simp [hCollecting, Main.isAborting, Main.isEnded] at hMain
  | collectedIntegrityError scheduler rest integrityFailed name name' version expected actual hCollecting hFresh
      hWorker => simp [hCollecting, Main.isAborting, Main.isEnded] at hMain
  | _ => rfl

theorem run_poolless (hNone : ¬ ∃ scheduler plan, Plans pipeline scheduler plan)
    (hRun : Run (Execution.Step host registry pipeline) .initial events s) : Poolless s ∧ s.run.jobs = .empty := by
  have hKeeps := hRun.invariant fun s e t (h : Poolless s ∧ s.run.jobs = .empty) hStep =>
    And.intro (hStep.moves.poolless hNone h.1) ((h.1.same_jobs hStep.moves).trans h.2)
  exact hKeeps ⟨⟨rfl, .inl rfl⟩, rfl⟩

theorem run_kept (hRun : Run (Execution.Step host registry pipeline) .initial events s)
    (hStep : Execution.Step host registry pipeline s e t) (hGet : s.run.jobs.get? job = some entry) :
    t.run.jobs.get? job = some entry := by
  by_cases hPlans : ∃ scheduler plan, Plans pipeline scheduler plan
  · obtain ⟨scheduler, plan, hPlans⟩ := hPlans
    obtain ⟨g, hPlanned⟩ := hPlans.exists_planned
    obtain ⟨hPool, hRecords⟩ := records_run hPlanned hRun
    exact hRecords.kept hPlanned.levels hPool hStep.moves hGet
  · rw [(run_poolless hPlans hRun).2] at hGet
    cases hGet

/-! ## The status goes on -/

/-- How the status of a run can go on, in one step or in many. -/
inductive RunStatus.Goes : RunStatus → RunStatus → Prop where
  | stays (status : RunStatus) : Goes status status
  | leaves (status : RunStatus) : Goes .queued status
  | ends (status : RunStatus) (hStatus : status = .succeeded ∨ status = .failed ∨ status = .integrityFailure) :
      Goes .running status

theorem RunStatus.Goes.trans {a b c : RunStatus} (h : a.Goes b) (h' : b.Goes c) : a.Goes c := by
  cases h with
  | stays => exact h'
  | leaves => exact .leaves c
  | ends b hStatus =>
    cases h' with
    | stays => exact .ends b hStatus
    | leaves => simp at hStatus
    | ends => simp at hStatus

/-- The status that goes with the place of the main thread, before its end. -/
def StatusFits (s : Execution) : Prop :=
  match s.main with
  | .queued => s.run.status = .queued
  | .resolved => s.run.status = .queued
  | .aborting _ => s.run.status.isLive = true
  | .ended => True
  | _ => s.run.status = .running

theorem StatusFits.isLive (h : StatusFits s) (hEnded : s.main.isEnded = false) : s.run.status.isLive = true := by
  rw [StatusFits] at h
  cases hMain : s.main with
  | ended =>
    rw [hMain] at hEnded
    cases hEnded
  | aborting error =>
    rw [hMain] at h
    exact h
  | _ =>
    rw [hMain] at h
    rw [show s.run.status = _ from h]
    rfl

theorem RunStatus.goes_failed {status : RunStatus} (h : status.isLive = true) : status.Goes .failed := by
  cases status with
  | queued => exact .leaves _
  | running => exact .ends _ (.inr (.inl rfl))
  | _ => cases h

theorem StopsEarly.statusFits (h : StopsEarly s t) (hStatus : s.run.status = .queued) :
    StatusFits t ∧ s.run.status.Goes t.run.status := by
  rw [hStatus]
  cases h with
  | ends status error hEnds => exact ⟨trivial, .leaves _⟩
  | aborts error =>
    refine ⟨?_, .leaves _⟩
    change s.run.status.isLive = true
    rw [hStatus]
    rfl

theorem Collects.statusFits {rest : List (List String)} {u : Execution} (h : Collects rest u t)
    (hStatus : t.run.status = .running) : StatusFits t := by
  rw [StatusFits]
  rcases h.main with ⟨scheduler, integrityFailed, hMain⟩ | ⟨error, hMain⟩
  · rw [hMain]
    exact hStatus
  · rw [hMain, hStatus]
    rfl

theorem Moves.statusFits (hFits : StatusFits s) (h : Moves host registry pipeline s e t) :
    StatusFits t ∧ s.run.status.Goes t.run.status := by
  have hLive : s.main.isEnded = false → s.run.status.isLive = true := hFits.isLive
  have hAborts : ∀ u : Execution, u.run = s.run → s.main.isEnded = false → ∀ error,
      StatusFits (u.aborts error) ∧ s.run.status.Goes (u.aborts error).run.status := by
    intro u hRun hEnded error
    refine ⟨?_, ?_⟩
    · change u.run.status.isLive = true
      rw [hRun]
      exact hLive hEnded
    · change s.run.status.Goes u.run.status
      rw [hRun]
      exact .stays _
  rw [StatusFits] at hFits
  cases h with
  | resolved lockfile hMain hResolves =>
    rw [hMain] at hFits
    exact ⟨hFits, .stays _⟩
  | unresolved t hMain hNot hStops =>
    rw [hMain] at hFits
    exact hStops.statusFits hFits
  | planned scheduler plan hMain hPlans =>
    rw [hMain] at hFits
    exact ⟨rfl, hFits ▸ .leaves _⟩
  | unplanned t hMain hNot hStops =>
    rw [hMain] at hFits
    exact hStops.statusFits hFits
  | worked job worker worker' action hWorker hPool hWorks => exact ⟨hFits, .stays _⟩
  | collectedResult scheduler rest integrityFailed job result published hMain hFresh hWorker =>
    rw [hMain] at hFits
    obtain ⟨jobs, hRun⟩ := collectResult_run (s := { s with collected := job :: s.collected }) scheduler rest
      integrityFailed job result published
    refine ⟨(collectResult_collects scheduler rest integrityFailed job result published).statusFits ?_, ?_⟩
    · rw [hRun]
      exact hFits
    · rw [hRun]
      exact .stays _
  | collectedIntegrityError scheduler rest integrityFailed job name version expected actual hMain hFresh
      hWorker =>
    rw [hMain] at hFits
    obtain ⟨jobs, hRun⟩ := collectIntegrityError_run (s := { s with collected := job :: s.collected })
      scheduler rest job
    refine ⟨(collectIntegrityError_collects scheduler rest job).statusFits ?_, ?_⟩
    · rw [hRun]
      exact hFits
    · rw [hRun]
      exact .stays _
  | collectedException scheduler rest integrityFailed job message hMain hFresh hWorker =>
    exact hAborts _ rfl (by rw [hMain]; rfl) message
  | refusedPool scheduler level rest hMain hLimit => exact hAborts s rfl (by rw [hMain]; rfl) _
  | submittedUnknown scheduler job todo rest hMain hUnknown => exact hAborts s rfl (by rw [hMain]; rfl) _
  | interrupted message hEnded hAborting => exact hAborts s rfl hEnded message
  | aborted error hMain hIdle =>
    exact ⟨trivial, RunStatus.goes_failed (hLive (by rw [hMain]; rfl))⟩
  | finished scheduler integrityFailed now hMain =>
    rw [hMain] at hFits
    rw [show s.run.status = .running from hFits]
    exact ⟨trivial, .ends _ (finalStatus_terminal _ _)⟩
  | skippedLevel scheduler level rest hMain =>
    rw [hMain] at hFits
    exact ⟨hFits, .stays _⟩
  | openedPool scheduler level rest hMain hLimit =>
    rw [hMain] at hFits
    exact ⟨hFits, .stays _⟩
  | submittedSkipped scheduler job todo rest hMain hSkipped =>
    rw [hMain] at hFits
    exact ⟨hFits, .stays _⟩
  | submitted scheduler job todo rest hMain hNot hJob =>
    rw [hMain] at hFits
    exact ⟨hFits, .stays _⟩
  | submittedAll scheduler rest hMain =>
    rw [hMain] at hFits
    exact ⟨hFits, .stays _⟩
  | closedPool scheduler rest integrityFailed hMain hAll =>
    rw [hMain] at hFits
    exact ⟨hFits, .stays _⟩

/-! ## Once and for all -/

/-- A run that has not begun its resolution has done nothing. -/
theorem initial_of_queued (hOld : s.main = .queued → s = .initial)
    (hMove : Moves host registry pipeline s e t) (hQueued : t.main = .queued) : t = .initial := by
  cases hMove with
  | unresolved t hMain hNot hStops => cases hStops <;> cases hQueued
  | unplanned t hMain hNot hStops => cases hStops <;> cases hQueued
  | worked job worker worker' action hWorker hPool hWorks =>
    rw [hOld hQueued] at hWorker
    cases hWorker
  | collectedResult scheduler rest integrityFailed job result published hMain hFresh hWorker =>
    obtain ⟨_, _, hMain'⟩ | ⟨_, hMain'⟩ := (collectResult_collects scheduler rest integrityFailed job result
      published (s := { s with collected := job :: s.collected })).main <;> cases hMain'.symm.trans hQueued
  | collectedIntegrityError scheduler rest integrityFailed job name version expected actual hMain hFresh hWorker =>
    obtain ⟨_, _, hMain'⟩ | ⟨_, hMain'⟩ := (collectIntegrityError_collects scheduler rest job
      (s := { s with collected := job :: s.collected })).main <;> cases hMain'.symm.trans hQueued
  | _ => cases hQueued

theorem eq_initial_of_queued (hRun : Run (Execution.Step host registry pipeline) .initial events s)
    (hQueued : s.main = .queued) : s = .initial := by
  have hKeeps := hRun.invariant fun s e t (h : s.main = .queued → s = .initial) hStep =>
    initial_of_queued h hStep.moves
  exact hKeeps (fun _ => rfl) hQueued

/-- The time and the error are assigned at the end of a run. -/
def Unfinished (s : Execution) : Prop :=
  s.main.isEnded = false → s.run.completedAt = none ∧ s.run.error = none

theorem StopsEarly.unfinished (h : StopsEarly s t) (hOld : s.run.completedAt = none ∧ s.run.error = none) :
    Unfinished t := by
  cases h with
  | ends status error hStatus => exact fun hEnded => by cases hEnded
  | aborts error => exact fun _ => hOld

theorem Moves.unfinished (hOld : Unfinished s) (h : Moves host registry pipeline s e t) : Unfinished t := by
  cases h with
  | unresolved t hMain hNot hStops => exact hStops.unfinished (hOld (by rw [hMain]; rfl))
  | unplanned t hMain hNot hStops => exact hStops.unfinished (hOld (by rw [hMain]; rfl))
  | collectedResult scheduler rest integrityFailed job result published hMain hFresh hWorker =>
    intro _
    obtain ⟨jobs, hRun⟩ := collectResult_run (s := { s with collected := job :: s.collected }) scheduler rest
      integrityFailed job result published
    rw [hRun]
    exact hOld (by rw [hMain]; rfl)
  | collectedIntegrityError scheduler rest integrityFailed job name version expected actual hMain hFresh
      hWorker =>
    intro _
    obtain ⟨jobs, hRun⟩ := collectIntegrityError_run (s := { s with collected := job :: s.collected })
      scheduler rest job
    rw [hRun]
    exact hOld (by rw [hMain]; rfl)
  | worked job worker worker' action hWorker hPool hWorks => exact hOld
  | aborted error hMain hIdle => exact fun hEnded => by cases hEnded
  | finished scheduler integrityFailed now hMain => exact fun hEnded => by cases hEnded
  | interrupted message hEnded hAborting => exact fun _ => hOld hEnded
  | resolved lockfile hMain hResolves => exact fun _ => hOld (by rw [hMain]; rfl)
  | planned scheduler plan hMain hPlans => exact fun _ => hOld (by rw [hMain]; rfl)
  | skippedLevel scheduler level rest hMain => exact fun _ => hOld (by rw [hMain]; rfl)
  | refusedPool scheduler level rest hMain hLimit => exact fun _ => hOld (by rw [hMain]; rfl)
  | openedPool scheduler level rest hMain hLimit => exact fun _ => hOld (by rw [hMain]; rfl)
  | submittedSkipped scheduler job todo rest hMain hSkipped => exact fun _ => hOld (by rw [hMain]; rfl)
  | submittedUnknown scheduler job todo rest hMain hUnknown => exact fun _ => hOld (by rw [hMain]; rfl)
  | submitted scheduler job todo rest hMain hNot hJob => exact fun _ => hOld (by rw [hMain]; rfl)
  | submittedAll scheduler rest hMain => exact fun _ => hOld (by rw [hMain]; rfl)
  | collectedException scheduler rest integrityFailed job message hMain hFresh hWorker =>
    exact fun _ => hOld (by rw [hMain]; rfl)
  | closedPool scheduler rest integrityFailed hMain hAll => exact fun _ => hOld (by rw [hMain]; rfl)

/-- `GET /runs/{run_id}/lockfile` -/
def getLockfile (run : RunState) : Except HTTPException Lockfile :=
  match run.lockfile with
  | none => .error ⟨404, "Lockfile not available yet"⟩
  | some lockfile => .ok lockfile

theorem getLockfile_ok_iff {run : RunState} {lockfile : Lockfile} :
    getLockfile run = .ok lockfile ↔ run.lockfile = some lockfile := by
  cases hLockfile : run.lockfile with
  | none => simp [getLockfile, hLockfile]
  | some found => simp [getLockfile, hLockfile]

/-- What is so in `s` is still so in `t`, field by field. -/
structure Execution.Grows (s t : Execution) : Prop where
  jobs : ∀ job entry, s.run.jobs.get? job = some entry → t.run.jobs.get? job = some entry
  status : s.run.status.Goes t.run.status
  lockfile : ∀ lockfile, getLockfile s.run = .ok lockfile → getLockfile t.run = .ok lockfile
  completedAt : ∀ time, s.run.completedAt = some time → t.run.completedAt = some time
  error : ∀ message, s.run.error = some message → t.run.error = some message
  frozen : s.run.status.isLive = false → t.run = s.run

theorem Execution.Grows.refl (s : Execution) : s.Grows s :=
  ⟨fun _ _ => id, .stays _, fun _ => id, fun _ => id, fun _ => id, fun _ => rfl⟩

theorem Execution.Grows.trans {u : Execution} (h : s.Grows t) (h' : t.Grows u) : s.Grows u where
  jobs job entry hGet := h'.jobs job entry (h.jobs job entry hGet)
  status := h.status.trans h'.status
  lockfile lockfile hGet := h'.lockfile lockfile (h.lockfile lockfile hGet)
  completedAt time hTime := h'.completedAt time (h.completedAt time hTime)
  error message hError := h'.error message (h.error message hError)
  frozen hOver := by
    have hSame := h.frozen hOver
    rw [← hSame] at hOver ⊢
    exact h'.frozen hOver

theorem run_grows (hRun : Run (Execution.Step host registry pipeline) .initial events s)
    (hStep : Execution.Step host registry pipeline s e t) : s.Grows t := by
  have hFits := hRun.invariant (fun s e t (h : StatusFits s) hStep => (hStep.moves.statusFits h).1) rfl
  have hUnfinished := hRun.invariant (fun s e t (h : Unfinished s) hStep => hStep.moves.unfinished h)
    fun _ => ⟨rfl, rfl⟩
  obtain ⟨hPool, hOver⟩ := run_overInv hRun
  have hGoes := hStep.moves.not_ended hPool
  obtain ⟨hTime, hError⟩ := hUnfinished hGoes
  refine ⟨fun job entry => run_kept hRun hStep, (hStep.moves.statusFits hFits).2, ?_, ?_, ?_, ?_⟩
  · intro lockfile hGet
    rw [getLockfile_ok_iff] at hGet ⊢
    rcases hStep.moves.lockfile with hSame | ⟨hMain, -⟩
    · rw [hSame, hGet]
    · rw [eq_initial_of_queued hRun hMain] at hGet
      cases hGet
  · intro time hSome
    rw [hTime] at hSome
    cases hSome
  · intro message hSome
    rw [hError] at hSome
    cases hSome
  · intro hEnded
    rw [hOver.mp hEnded] at hGoes
    cases hGoes

/-! ## Polls -/

def Reached (host : Host) (registry : RegistryClient) (pipeline : PipelineConfig) (s : Execution) : Prop :=
  ∃ events, Run (Execution.Step host registry pipeline) .initial events s

/-- The run goes on from `s` to `t`, in any number of steps. -/
def GoesOn (host : Host) (registry : RegistryClient) (pipeline : PipelineConfig) (s t : Execution) : Prop :=
  ∃ events, Run (Execution.Step host registry pipeline) s events t

theorem Reached.grows (h : Reached host registry pipeline s) (hLater : GoesOn host registry pipeline s t) :
    s.Grows t := by
  obtain ⟨events, hRun⟩ := h
  obtain ⟨later, hLater⟩ := hLater
  have hKeeps := hLater.traces fun before u e v
      (h : Run (Execution.Step host registry pipeline) .initial (events ++ before) u ∧ s.Grows u) hStep => by
    have hNow := h.1.append (.single hStep)
    rw [List.append_assoc] at hNow
    exact And.intro hNow (h.2.trans (run_grows h.1 hStep))
  exact (hKeeps [] ⟨by rwa [List.append_nil], .refl s⟩).2

theorem Reached.goesOn (h : Reached host registry pipeline s) (hLater : GoesOn host registry pipeline s t) :
    Reached host registry pipeline t := by
  obtain ⟨events, hRun⟩ := h
  obtain ⟨later, hLater⟩ := hLater
  exact ⟨events ++ later, hRun.append hLater⟩

/-- The answer to `GET /runs/{run_id}`, without its other times and its link. -/
structure RunAnswer where
  status : RunStatus
  jobs : Dict String JobEntry
  completedAt : Option String
  error : Option String

/-- `RunState.to_dict`, which reads the fields one after the other: each of the four states is the one in which
its field is read. -/
def RunState.toDict (status jobs completedAt error : RunState) : RunAnswer :=
  ⟨status.status, jobs.jobs, completedAt.completedAt, error.error⟩

/-- One poll of a run. Between the assignment of the status and that of the time or the error, the last two are
still those of the state before. The entries are written out when the status has been read. -/
structure Poll (host : Host) (registry : RegistryClient) (pipeline : PipelineConfig) where
  status : Execution
  jobs : Execution
  completedAt : Execution
  error : Execution
  reachedStatus : Reached host registry pipeline status
  reachedCompletedAt : Reached host registry pipeline completedAt
  reachedError : Reached host registry pipeline error
  written : GoesOn host registry pipeline status jobs

def Poll.answer (poll : Poll host registry pipeline) : RunAnswer :=
  RunState.toDict poll.status.run poll.jobs.run poll.completedAt.run poll.error.run

/-- The second poll reads each field after the first one has. -/
structure Poll.Before (first second : Poll host registry pipeline) : Prop where
  status : GoesOn host registry pipeline first.status second.status
  jobs : GoesOn host registry pipeline first.jobs second.jobs
  completedAt : GoesOn host registry pipeline first.completedAt second.completedAt
  error : GoesOn host registry pipeline first.error second.error

/-- What the first answer has shown, the second one still shows. -/
structure RunAnswer.Confirms (second first : RunAnswer) : Prop where
  jobs : ∀ job entry, first.jobs.get? job = some entry → second.jobs.get? job = some entry
  status : first.status.Goes second.status
  completedAt : ∀ time, first.completedAt = some time → second.completedAt = some time
  error : ∀ message, first.error = some message → second.error = some message
  settled : first.status.isLive = false → second.status = first.status ∧ second.jobs = first.jobs

/-- Whatever a client has polled stays true: an entry never changes, the status only goes on, a time or an error
stays, and once the status is terminal neither it nor the entries change any more. A lockfile that has been
returned is returned again. -/
theorem polls_agree : (∀ first second : Poll host registry pipeline, first.Before second →
      second.answer.Confirms first.answer) ∧
    ∀ s t, Reached host registry pipeline s → GoesOn host registry pipeline s t →
      ∀ lockfile, getLockfile s.run = .ok lockfile → getLockfile t.run = .ok lockfile := by
  refine ⟨fun first second hBefore => ?_, fun s t hReached hLater => (hReached.grows hLater).lockfile⟩
  have hStatus := first.reachedStatus.grows hBefore.status
  have hWritten := first.reachedStatus.grows first.written
  have hJobs := (first.reachedStatus.goesOn first.written).grows hBefore.jobs
  refine ⟨hJobs.jobs, hStatus.status, (first.reachedCompletedAt.grows hBefore.completedAt).completedAt,
    (first.reachedError.grows hBefore.error).error, fun hTerminal => ⟨?_, ?_⟩⟩
  · exact congrArg RunState.status (hStatus.frozen hTerminal)
  · have hStill : first.jobs.run.status.isLive = false := by
      rw [hWritten.frozen hTerminal]
      exact hTerminal
    exact congrArg RunState.jobs (hJobs.frozen hStill)

/-- A poll between the last two assignments of a run, and one after them. -/
theorem polls_agree_release : ∃ first second : Poll exampleHost emptyRegistry (releasePipeline []),
    first.answer.status = .failed ∧ first.answer.completedAt = none ∧
      second.answer.completedAt = some "2024-05-01" ∧ second.answer.Confirms first.answer := by
  have hRun : ∃ s, Run (Execution.Step exampleHost emptyRegistry (releasePipeline [])) .initial
      (releaseEvents.take 29) s ∧ s.run.completedAt = none ∧
      ∃ t, Run (Execution.Step exampleHost emptyRegistry (releasePipeline [])) s (releaseEvents.drop 29) t ∧
        t.run.status = .failed ∧ t.run.completedAt = some "2024-05-01" :=
    ⟨_, run_stepsOf_iff.mpr rfl, rfl, _, run_stepsOf_iff.mpr rfl, rfl, rfl⟩
  obtain ⟨s, hRun, hNone, t, hLast, hFailed, hTime⟩ := hRun
  have hs : Reached exampleHost emptyRegistry (releasePipeline []) s := ⟨_, hRun⟩
  have ht : Reached exampleHost emptyRegistry (releasePipeline []) t := hs.goesOn ⟨_, hLast⟩
  refine ⟨⟨t, t, s, s, ht, hs, hs, ⟨_, .nil t⟩⟩, ⟨t, t, t, t, ht, ht, ht, ⟨_, .nil t⟩⟩, hFailed, hNone, hTime, ?_⟩
  exact polls_agree.1 _ _ ⟨⟨_, .nil t⟩, ⟨_, .nil t⟩, ⟨_, hLast⟩, ⟨_, hLast⟩⟩

end Forge.Engine
