import Forge.Engine.RecordsInvariant

/-! # The records, step by step

The main thread and the workers keep the records and the events in step in every phase of a run, and a
run that ends by itself is finalized.
-/
namespace Forge.Engine
open Forge.Python Forge.Registry Forge.Theory Relation
set_option autoImplicit false

variable {g : JobGraph} {plan : List (List String)} {events : List Event} {e : Event} {s t : Execution}
  {host : Host} {registry : RegistryClient} {pipeline : PipelineConfig} {job : String}

def RecordsPhase (g : JobGraph) (plan : List (List String)) (events : List Event) (s : Execution) : Prop :=
  match s.main with
  | .queued => s.futures = .empty ∧ s.run.jobs = .empty ∧ ∀ j, Untouched events j
  | .resolved => s.futures = .empty ∧ s.run.jobs = .empty ∧ ∀ j, Untouched events j
  | .levels scheduler rest integrityFailed => ∃ pre, plan = pre ++ rest ∧
      Between g events s.run.jobs scheduler pre.length integrityFailed
  | .submitting scheduler todo rest => ∃ pre sub, plan = pre ++ (sub ++ todo) :: rest ∧
      OpenLevel g events s scheduler pre.length sub
  | .collecting scheduler rest _ => ∃ pre level, plan = pre ++ level :: rest ∧
      OpenLevel g events s scheduler pre.length level
  | .aborting _ => True
  | .ended => s.run.completedAt ≠ none → Finalized g.jobs events s.run

structure RecordsInv (g : JobGraph) (plan : List (List String)) (events : List Event) (s : Execution) :
    Prop where
  phase : RecordsPhase g plan events s
  fits : ∀ job worker, s.futures.get? job = some worker → worker.Fits s.run.lockfile events job
  needs : ∀ job worker, s.futures.get? job = some worker →
    ∀ dep, TransGen (Needs g.jobs) job dep → Completed events s.run.jobs dep
  unfinished : s.main.isEnded = false → s.run.completedAt = none

theorem recordsInv_initial : RecordsInv g plan [] .initial where
  phase := ⟨rfl, rfl, fun _ _ h => (List.not_mem_nil h).elim⟩
  fits _ _ h := by cases h
  needs _ _ h := by cases h
  unfinished _ := rfl

/-- An event of the main thread, before it takes effect. -/
theorem RecordsInv.next (h : RecordsInv g plan events s) (hOther : ∀ j action, e ≠ .work j action) :
    RecordsInv g plan (events ++ [e]) s := by
  refine ⟨?_, ?_, ?_, h.unfinished⟩
  · have hPhase := h.phase
    rw [RecordsPhase] at hPhase ⊢
    cases hMain : s.main with
    | queued =>
      rw [hMain] at hPhase
      exact ⟨hPhase.1, hPhase.2.1, fun j => (hPhase.2.2 j).next (hOther j)⟩
    | resolved =>
      rw [hMain] at hPhase
      exact ⟨hPhase.1, hPhase.2.1, fun j => (hPhase.2.2 j).next (hOther j)⟩
    | levels scheduler rest integrityFailed =>
      rw [hMain] at hPhase
      obtain ⟨pre, hSplit, hBetween⟩ := hPhase
      exact ⟨pre, hSplit, hBetween.next hOther⟩
    | submitting scheduler todo rest =>
      rw [hMain] at hPhase
      obtain ⟨pre, sub, hSplit, hOpen⟩ := hPhase
      exact ⟨pre, sub, hSplit, hOpen.next hOther⟩
    | collecting scheduler rest integrityFailed =>
      rw [hMain] at hPhase
      obtain ⟨pre, level, hSplit, hOpen⟩ := hPhase
      exact ⟨pre, level, hSplit, hOpen.next hOther⟩
    | aborting error => trivial
    | ended =>
      rw [hMain] at hPhase
      exact fun hCompleted => (hPhase hCompleted).next hOther
  · exact fun job worker hGet => (h.fits job worker hGet).next (hOther job)
  · exact fun job worker hGet dep hPath => (h.needs job worker hGet dep hPath).next

theorem RecordsInv.worked (h : RecordsInv g plan events s) (hPool : PoolInv s) {worker worker' : Worker}
    {action : Action} (hWorker : s.futures.get? job = some worker)
    (hWorks : Works host pipeline s.run.lockfile job worker action worker') :
    RecordsInv g plan (events ++ [.work job action]) (s.worked job worker action worker') := by
  have hAwaits := hPool.awaits hWorker hWorks.not_done
  have hPhase := h.phase
  refine ⟨?_, ?_, ?_, h.unfinished⟩
  · rw [Execution.Awaits] at hAwaits
    rw [RecordsPhase] at hPhase
    change RecordsPhase g plan _ { s.worked job worker action worker' with main := s.main }
    cases hMain : s.main with
    | submitting scheduler todo rest =>
      rw [hMain] at hAwaits hPhase
      obtain ⟨pre, sub, hSplit, hOpen⟩ := hPhase
      exact ⟨pre, sub, hSplit, (hOpen.worked hWorker hAwaits worker' action).withMain _⟩
    | collecting scheduler rest integrityFailed =>
      rw [hMain] at hAwaits hPhase
      obtain ⟨pre, level, hSplit, hOpen⟩ := hPhase
      exact ⟨pre, level, hSplit, (hOpen.worked hWorker hAwaits worker' action).withMain _⟩
    | aborting error => trivial
    | _ =>
      rw [hMain] at hAwaits
      exact hAwaits.elim
  · intro j other hGet
    rw [Execution.worked, Dict.get?_set] at hGet
    split at hGet
    · rename_i hSame
      cases hGet
      subst hSame
      exact hWorks.fits (h.fits j worker hWorker)
    · rename_i hNe
      refine (h.fits j other hGet).next fun action' hWork => ?_
      cases hWork
      exact hNe rfl
  · intro j other hGet dep hPath
    rw [Execution.worked, Dict.get?_set] at hGet
    split at hGet
    · rename_i hSame
      exact (h.needs j worker (hSame ▸ hWorker) dep hPath).next
    · exact (h.needs j other hGet dep hPath).next

/-! ## The steps of the main thread -/

/-- Steps that leave the workers and the entries as they are. -/
theorem RecordsInv.of_phase (h : RecordsInv g plan events s) (hFutures : t.futures = s.futures)
    (hLockfile : t.run.lockfile = s.run.lockfile) (hJobs : t.run.jobs = s.run.jobs)
    (hPhase : RecordsPhase g plan events t)
    (hUnfinished : t.main.isEnded = false → t.run.completedAt = none) : RecordsInv g plan events t where
  phase := hPhase
  fits := by
    rw [hFutures, hLockfile]
    exact h.fits
  needs := by
    rw [hFutures, hJobs]
    exact h.needs
  unfinished := hUnfinished

theorem RecordsInv.aborts (h : RecordsInv g plan events s) (hMain : s.main.isEnded = false)
    (collected : List String) (error : String) :
    RecordsInv g plan events ({ s with collected }.aborts error) :=
  h.of_phase rfl rfl rfl trivial fun _ => h.unfinished hMain

theorem RecordsInv.stops (h : RecordsInv g plan events s) (hMain : s.main.isEnded = false)
    (hStops : StopsEarly s t) : RecordsInv g plan events t := by
  have hCompleted := h.unfinished hMain
  cases hStops with
  | ends status error hStatus =>
    refine h.of_phase rfl rfl rfl ?_ fun _ => hCompleted
    exact fun hSome => absurd hCompleted hSome
  | aborts error => exact h.aborts hMain s.collected error

/-- A job of the open level is collected, with a scheduler and an entry to go with its result. -/
theorem RecordsInv.collected {scheduler scheduler' : DAGScheduler} {rest : List (List String)}
    {integrityFailed integrityFailed' : Bool} {pre : List (List String)} {level : List String}
    (h : RecordsInv g plan events s) (hMain : s.main = .collecting scheduler rest integrityFailed)
    (hSplit : plan = pre ++ level :: rest)
    (hOpen : OpenLevel g events t scheduler' pre.length level)
    (hMain' : t.main = .collecting scheduler' rest integrityFailed') (hFutures : t.futures = s.futures)
    (hLockfile : t.run.lockfile = s.run.lockfile) (hCompleted : t.run.completedAt = s.run.completedAt) :
    RecordsInv g plan events t ∧ t.main.isAborting = false := by
  refine ⟨⟨?_, ?_, fun job worker hGet dep hPath => hOpen.completed hGet hPath, fun _ => ?_⟩, ?_⟩
  · rw [RecordsPhase, hMain']
    exact ⟨pre, level, hSplit, hOpen⟩
  · rw [hFutures, hLockfile]
    exact h.fits
  · rw [hCompleted]
    exact h.unfinished (by rw [hMain]; rfl)
  · rw [hMain']
    rfl

theorem RecordsInv.collectedResult {scheduler : DAGScheduler} {rest : List (List String)}
    {integrityFailed : Bool} {result : JobResult} {published : List PublishedArtifact}
    (h : RecordsInv g plan events s) (hMain : s.main = .collecting scheduler rest integrityFailed)
    (hFresh : job ∉ s.collected) (hWorker : s.futures.get? job = some (.returned result published)) :
    let t := Execution.collectResult { s with collected := job :: s.collected } scheduler rest
      integrityFailed job result published
    RecordsInv g plan events t ∧ t.main.isAborting = false := by
  have hPhase := h.phase
  rw [RecordsPhase, hMain] at hPhase
  obtain ⟨pre, level, hSplit, hOpen⟩ := hPhase
  have hJob := Dict.mem_keys_of_get? hWorker
  have hExit : Event.work job (.exit result.exitCode) ∈ events := h.fits job _ hWorker
  have hKey := (hOpen.level job (hOpen.members job hJob)).1
  have hQueued := hOpen.uncollected job hJob hFresh
  obtain ⟨jobs', hJobs'⟩ : ∃ jobs', jobs' = s.run.jobs.set job
      ⟨.job result.status, some result.exitCode, some published⟩ := ⟨_, rfl⟩
  obtain ⟨scheduler', hMark, hRecords, hAdvances⟩ : ∃ scheduler',
      (if result.status = .failed then (scheduler.updateJobStatus job result.status).markJobFailed job
        else some (scheduler.updateJobStatus job result.status)) = some scheduler' ∧
      Records g events jobs' scheduler' ∧ Advances g job scheduler scheduler' := by
    subst hJobs'
    by_cases hZero : result.exitCode = 0
    · have hStatus := JobResult.status_eq_succeeded.mpr hZero
      rw [hStatus, hZero, if_neg (by simp)]
      rw [hZero] at hExit
      refine ⟨_, rfl, hOpen.records.succeed hKey hQueued (hOpen.ready job hJob) hExit published, ?_, ?_⟩
      · rw [updateJobStatus_getJobStatus, if_pos rfl]
        simp
      · intro j hNe _
        rw [updateJobStatus_getJobStatus, if_neg hNe]
    · have hStatus := JobResult.status_eq_failed.mpr hZero
      have hReports : Reports events job ⟨.job result.status, some result.exitCode, some published⟩ :=
        .executed result.exitCode published hExit
      rw [hStatus] at hReports ⊢
      rw [if_pos rfl]
      exact hOpen.records.mark hKey hQueued (hOpen.level_le hJob) hReports (fun hNone => hNone _ hExit)
        (updateJobStatus_built hOpen.records.built job _) (updateJobStatus_keys hOpen.records.keys hKey _)
        (fun j hNe => by rw [updateJobStatus_getJobStatus, if_neg hNe])
  have hEq : Execution.collectResult { s with collected := job :: s.collected } scheduler rest
      integrityFailed job result published =
      { s with run := { s.run with jobs := copySkipped scheduler' jobs' }
               main := .collecting scheduler' rest integrityFailed
               collected := job :: s.collected } := by
    simp only [Execution.collectResult, hMark, hJobs']
  have hGrow := subset_keys_copySkipped scheduler' jobs'
  rw [hEq]
  refine h.collected hMain hSplit (hOpen.collect hJob hRecords.copySkipped hAdvances ?_ ?_ rfl rfl) rfl rfl
    rfl rfl
  · apply hGrow
    rw [hJobs', Dict.mem_keys_set]
    exact .inl rfl
  · refine List.Subset.trans (fun j hj => ?_) hGrow
    rw [hJobs', Dict.mem_keys_set]
    exact .inr hj

theorem RecordsInv.collectedIntegrityError {scheduler : DAGScheduler} {rest : List (List String)}
    {integrityFailed : Bool} {name version expected actual : String}
    (h : RecordsInv g plan events s) (hMain : s.main = .collecting scheduler rest integrityFailed)
    (hFresh : job ∉ s.collected)
    (hWorker : s.futures.get? job = some (.raised (.integrityError name version expected actual))) :
    let t := Execution.collectIntegrityError { s with collected := job :: s.collected } scheduler rest job
    RecordsInv g plan events t ∧ t.main.isAborting = false := by
  have hPhase := h.phase
  rw [RecordsPhase, hMain] at hPhase
  obtain ⟨pre, level, hSplit, hOpen⟩ := hPhase
  have hJob := Dict.mem_keys_of_get? hWorker
  obtain ⟨hUnexited, content, hPull, -⟩ := h.fits job _ hWorker
  obtain ⟨scheduler', hMark, hRecords, hAdvances⟩ :=
    hOpen.records.mark (hOpen.level job (hOpen.members job hJob)).1 (hOpen.uncollected job hJob hFresh)
      (hOpen.level_le hJob) (.corrupted content hPull hUnexited) (fun hNone => hNone _ hPull)
      hOpen.records.built hOpen.records.keys (fun _ _ => rfl)
  simp only [Execution.collectIntegrityError, hMark]
  refine h.collected hMain hSplit (hOpen.collect hJob hRecords hAdvances ?_ ?_ rfl rfl) rfl rfl rfl rfl
  · exact Dict.mem_keys_set.mpr (.inl rfl)
  · exact fun j hj => Dict.mem_keys_set.mpr (.inr hj)

theorem finalStatus_terminal (integrityFailed : Bool) (statuses : List EntryStatus) :
    finalStatus integrityFailed statuses = .succeeded ∨ finalStatus integrityFailed statuses = .failed ∨
      finalStatus integrityFailed statuses = .integrityFailure := by
  unfold finalStatus
  split
  · exact .inr (.inr rfl)
  · split
    · exact .inr (.inl rfl)
    · exact .inl rfl

theorem Between.finish {scheduler : DAGScheduler} {integrityFailed : Bool} {n : ℕ}
    (h : Between g events s.run.jobs scheduler n integrityFailed)
    (hAll : ∀ j ∈ g.jobs.keys, g.level j < n) (now : String) :
    Finalized g.jobs events (s.finish integrityFailed now).run where
  status := finalStatus_terminal _ _
  completedAt := by simp [Execution.finish]
  entries j hJob := by
    obtain ⟨entry, hGet⟩ := Dict.mem_keys_iff.mp (h.passed j hJob (hAll j hJob))
    exact ⟨entry, hGet, (h.reported j entry hGet).2⟩

/-- A step of the main thread whose event has been recorded. -/
theorem RecordsInv.main_moves {scheduler₀ : DAGScheduler} (hPlanned : Planned g pipeline scheduler₀ plan)
    (hPool : PoolInv s) (h : RecordsInv g plan events s) (hMove : Moves host registry pipeline s e t)
    (hOther : ∀ j action, e ≠ .work j action) : RecordsInv g plan events t := by
  have hPhase := h.phase
  have hLevels := hPlanned.levels
  cases hMove with
  | resolved lockfile hMain hResolves =>
    rw [RecordsPhase, hMain] at hPhase
    refine ⟨hPhase, ?_, h.needs, fun _ => h.unfinished (by rw [hMain]; rfl)⟩
    intro job worker hGet
    rw [show s.futures = .empty from hPhase.1] at hGet
    cases hGet
  | unresolved t hMain hNot hStops => exact h.stops (by rw [hMain]; rfl) hStops
  | planned scheduler plan' hMain hPlans =>
    rw [RecordsPhase, hMain] at hPhase
    obtain ⟨rfl, rfl⟩ := hPlanned.unique hPlans
    refine h.of_phase rfl rfl rfl ⟨[], rfl, ?_⟩ fun _ => h.unfinished (by rw [hMain]; rfl)
    change Between g events s.run.jobs scheduler 0 false
    rw [hPhase.2.1]
    exact .first hPlanned.built hPlanned.statuses hPhase.2.2
  | unplanned t hMain hNot hStops => exact absurd hPlanned.plans (hNot scheduler₀ plan)
  | skippedLevel scheduler level rest hMain =>
    rw [RecordsPhase, hMain] at hPhase
    obtain ⟨pre, hSplit, hBetween⟩ := hPhase
    refine ⟨⟨pre ++ [level], by simp [hSplit], ?_⟩, h.fits, ?_, fun _ => h.unfinished (by rw [hMain]; rfl)⟩
    · rw [List.length_append, List.length_singleton]
      exact hBetween.skipLevel fun j => hLevels.mem_level_iff hSplit j
    · exact fun job worker hGet dep hPath => (h.needs job worker hGet dep hPath).skipLevel level
  | refusedPool scheduler level rest hMain hLimit => exact h.aborts (by rw [hMain]; rfl) s.collected _
  | openedPool scheduler level rest hMain hLimit =>
    rw [RecordsPhase, hMain] at hPhase
    obtain ⟨pre, hSplit, hBetween⟩ := hPhase
    refine ⟨⟨pre, [], hSplit, hBetween.openPool _⟩, ?_, ?_, fun _ => h.unfinished (by rw [hMain]; rfl)⟩
    · intro job worker hGet
      cases hGet
    · intro job worker hGet
      cases hGet
  | submittedSkipped scheduler job todo rest hMain hSkipped =>
    rw [RecordsPhase, hMain] at hPhase
    rw [PoolInv, hMain] at hPool
    obtain ⟨pre, sub, hSplit, hOpen⟩ := hPhase
    obtain ⟨hJob, hAt⟩ := (hLevels.mem_level_iff hSplit job).mp (by simp)
    have hNext := hOpen.skip hJob hAt hSkipped (.submitting scheduler todo rest)
    refine ⟨⟨pre, sub ++ [job], by simp [hSplit], hNext⟩, h.fits, ?_,
      fun _ => h.unfinished (by rw [hMain]; rfl)⟩
    exact fun j worker hGet dep hPath => hNext.completed hGet hPath
  | submittedUnknown scheduler job todo rest hMain hUnknown => exact h.aborts (by rw [hMain]; rfl) s.collected _
  | submitted scheduler job todo rest hMain hNot hJob =>
    rw [RecordsPhase, hMain] at hPhase
    rw [PoolInv, hMain] at hPool
    obtain ⟨pre, sub, hSplit, hOpen⟩ := hPhase
    obtain ⟨hKey, hAt⟩ := (hLevels.mem_level_iff hSplit job).mp (by simp)
    have hFresh := hPool.2.2.1 job List.mem_cons_self
    have hNext := hOpen.submit hKey hAt hFresh hNot (.submitting scheduler todo rest)
    refine ⟨⟨pre, sub ++ [job], by simp [hSplit], hNext⟩, ?_, ?_, fun _ => h.unfinished (by rw [hMain]; rfl)⟩
    · intro j worker hGet
      rw [Dict.get?_set] at hGet
      split at hGet
      · rename_i hSame
        cases hGet
        subst hSame
        exact hOpen.untouched hAt hFresh
      · exact h.fits j worker hGet
    · exact fun j worker hGet dep hPath => hNext.completed hGet hPath
  | submittedAll scheduler rest hMain =>
    rw [RecordsPhase, hMain] at hPhase
    obtain ⟨pre, sub, hSplit, hOpen⟩ := hPhase
    rw [List.append_nil] at hSplit
    exact h.of_phase rfl rfl rfl ⟨pre, sub, hSplit, hOpen.withMain _⟩ fun _ =>
      h.unfinished (by rw [hMain]; rfl)
  | worked job worker worker' action hWorker hPool hWorks => exact absurd rfl (hOther job action)
  | collectedResult scheduler rest integrityFailed job result published hMain hFresh hWorker =>
    exact (h.collectedResult hMain hFresh hWorker).1
  | collectedIntegrityError scheduler rest integrityFailed job name version expected actual hMain
      hFresh hWorker =>
    exact (h.collectedIntegrityError hMain hFresh hWorker).1
  | collectedException scheduler rest integrityFailed job message hMain hFresh hWorker =>
    exact h.aborts (by rw [hMain]; rfl) (job :: s.collected) message
  | closedPool scheduler rest integrityFailed hMain hAll =>
    rw [RecordsPhase, hMain] at hPhase
    obtain ⟨pre, level, hSplit, hOpen⟩ := hPhase
    have hNext := hOpen.close (fun j hJob hAt => (hLevels.mem_level_iff hSplit j).mpr ⟨hJob, hAt⟩) hAll
      integrityFailed
    refine h.of_phase rfl rfl rfl ⟨pre ++ [level], by simp [hSplit], ?_⟩
      fun _ => h.unfinished (by rw [hMain]; rfl)
    rw [List.length_append, List.length_singleton]
    exact hNext
  | aborted error hMain hIdle =>
    have hCompleted := h.unfinished (by rw [hMain]; rfl)
    refine h.of_phase rfl rfl rfl ?_ fun _ => hCompleted
    exact fun hSome => absurd hCompleted hSome
  | finished scheduler integrityFailed now hMain =>
    rw [RecordsPhase, hMain] at hPhase
    obtain ⟨pre, hSplit, hBetween⟩ := hPhase
    rw [List.append_nil] at hSplit
    refine h.of_phase rfl rfl rfl ?_ fun hEnded => by cases hEnded
    exact fun _ => hBetween.finish (fun j hJob => hSplit ▸ hLevels.level_lt_length hJob) now
  | interrupted message hEnded hAborting => exact h.aborts hEnded s.collected message

theorem RecordsInv.moves {scheduler₀ : DAGScheduler} (hPlanned : Planned g pipeline scheduler₀ plan)
    (hPool : PoolInv s) (h : RecordsInv g plan events s) (hMove : Moves host registry pipeline s e t) :
    RecordsInv g plan (events ++ [e]) t := by
  by_cases hWork : ∃ j action, e = .work j action
  · obtain ⟨j, action, rfl⟩ := hWork
    cases hMove with
    | worked job worker worker' action hWorker hAllowed hWorks => exact h.worked hPool hWorker hWorks
  · have hOther : ∀ j action, e ≠ .work j action := fun j action hEq => hWork ⟨j, action, hEq⟩
    exact (h.next hOther).main_moves hPlanned hPool hMove hOther

theorem records_run {scheduler : DAGScheduler} (hPlanned : Planned g pipeline scheduler plan)
    (hRun : Run (Execution.Step host registry pipeline) .initial events s) :
    PoolInv s ∧ RecordsInv g plan events s := by
  have hKeeps := hRun.traces fun before s e t (h : PoolInv s ∧ RecordsInv g plan before s) hStep =>
    ⟨hStep.moves.poolInv Plans.nodup h.1, h.2.moves hPlanned h.1 hStep.moves⟩
  exact hKeeps [] ⟨poolInv_initial, recordsInv_initial⟩

end Forge.Engine
