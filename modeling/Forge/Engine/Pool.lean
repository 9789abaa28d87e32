import Forge.Engine.ExecutionSteps

/-! # The thread pool

How the steps of an execution change the pool, and what holds of it in each phase of the main thread: a
level is submitted to a fresh pool, each of its jobs once, and the next level waits for all of them.
-/
namespace Forge.Engine
open Forge.Python Forge.Registry Forge.Theory
set_option autoImplicit false

variable {host : Host} {registry : RegistryClient} {pipeline : PipelineConfig} {s t : Execution}
  {e : Event}

def Execution.Idle (s : Execution) : Prop :=
  ∀ job worker, s.futures.get? job = some worker → worker.isDone = true

theorem Execution.idle_iff : s.idle = true ↔ s.Idle := by
  simp only [Execution.idle, Execution.Idle, Dict.values, List.all_map, List.all_eq_true,
    Function.comp_apply, Dict.get?_eq_some_iff]
  constructor
  · exact fun h job worker hMem => h (job, worker) hMem
  · exact fun h entry hMem => h entry.1 entry.2 hMem

theorem not_idle {job : String} {worker : Worker} (hWorker : s.futures.get? job = some worker)
    (hNotDone : worker.isDone = false) : ¬ s.Idle := by
  intro hIdle
  rw [hIdle job worker hWorker] at hNotDone
  cases hNotDone

/-! ## Collections -/

/-- The collection of a result, as far as the pool is concerned. -/
structure Collects (rest : List (List String)) (s t : Execution) : Prop where
  futures : t.futures = s.futures
  history : t.history = s.history
  lockfile : t.run.lockfile = s.run.lockfile
  collected : t.collected = s.collected
  main : (∃ scheduler integrityFailed, t.main = .collecting scheduler rest integrityFailed) ∨
    ∃ error, t.main = .aborting error

theorem collectResult_collects (scheduler : DAGScheduler) (rest : List (List String))
    (integrityFailed : Bool) (job : String) (result : JobResult) (published : List PublishedArtifact) :
    Collects rest s (s.collectResult scheduler rest integrityFailed job result published) := by
  simp only [Execution.collectResult]
  split
  · exact ⟨rfl, rfl, rfl, rfl, .inr ⟨_, rfl⟩⟩
  · exact ⟨rfl, rfl, rfl, rfl, .inl ⟨_, _, rfl⟩⟩

theorem collectIntegrityError_collects (scheduler : DAGScheduler) (rest : List (List String))
    (job : String) : Collects rest s (s.collectIntegrityError scheduler rest job) := by
  simp only [Execution.collectIntegrityError]
  split
  · exact ⟨rfl, rfl, rfl, rfl, .inr ⟨_, rfl⟩⟩
  · exact ⟨rfl, rfl, rfl, rfl, .inl ⟨_, _, rfl⟩⟩

theorem collectResult_run (scheduler : DAGScheduler) (rest : List (List String)) (integrityFailed : Bool)
    (job : String) (result : JobResult) (published : List PublishedArtifact) :
    ∃ jobs, (s.collectResult scheduler rest integrityFailed job result published).run =
      { s.run with jobs } := by
  simp only [Execution.collectResult]
  split
  · exact ⟨_, rfl⟩
  · exact ⟨_, rfl⟩

theorem collectIntegrityError_run (scheduler : DAGScheduler) (rest : List (List String)) (job : String) :
    ∃ jobs, (s.collectIntegrityError scheduler rest job).run = { s.run with jobs } := by
  simp only [Execution.collectIntegrityError]
  split
  · exact ⟨_, rfl⟩
  · exact ⟨_, rfl⟩

/-! ## Changes of the pool -/

/-- What the main thread does to the pool. -/
inductive PoolChange (pipeline : PipelineConfig) (s t : Execution) : Prop where
  | same (hFutures : t.futures = s.futures)
  | opened (scheduler : DAGScheduler) (rest : List (List String)) (integrityFailed : Bool)
      (hMain : s.main = .levels scheduler rest integrityFailed) (hFutures : t.futures = .empty)
  | queued (scheduler : DAGScheduler) (job : String) (todo : List String) (rest : List (List String))
      (hMain : s.main = .submitting scheduler (job :: todo) rest) (hJob : job ∈ pipeline.jobs.keys)
      (hFutures : t.futures = s.futures.set job .queued)

/-- The steps, sorted by their effect on the pool and on the world outside. -/
inductive PoolStep (host : Host) (pipeline : PipelineConfig) (s : Execution) : Event → Execution → Prop
    where
  | worked (job : String) (worker worker' : Worker) (action : Action)
      (hWorker : s.futures.get? job = some worker)
      (hWorks : Works host pipeline s.run.lockfile job worker action worker') :
      PoolStep host pipeline s (.work job action) (s.worked job worker action worker')
  | main (e : Event) (t : Execution) (hHistory : t.history = s.history) (hPool : PoolChange pipeline s t)
      (hEvent : ∀ job action, e ≠ .work job action) : PoolStep host pipeline s e t

theorem StopsEarly.futures (h : StopsEarly s t) : t.futures = s.futures := by
  cases h <;> rfl

theorem StopsEarly.history (h : StopsEarly s t) : t.history = s.history := by
  cases h <;> rfl

theorem Moves.poolStep (h : Moves host registry pipeline s e t) : PoolStep host pipeline s e t := by
  cases h with
  | resolved lockfile hMain hResolves => exact .main _ _ rfl (.same rfl) (by simp)
  | unresolved t hMain hNot hStops => exact .main _ _ hStops.history (.same hStops.futures) (by simp)
  | planned scheduler plan hMain hPlans => exact .main _ _ rfl (.same rfl) (by simp)
  | unplanned t hMain hNot hStops => exact .main _ _ hStops.history (.same hStops.futures) (by simp)
  | skippedLevel scheduler level rest hMain => exact .main _ _ rfl (.same rfl) (by simp)
  | refusedPool scheduler level rest hMain hLimit => exact .main _ _ rfl (.same rfl) (by simp)
  | openedPool scheduler level rest hMain hLimit =>
    exact .main _ _ rfl (.opened scheduler (level :: rest) false hMain rfl) (by simp)
  | submittedSkipped scheduler job todo rest hMain hSkipped =>
    exact .main _ _ rfl (.same rfl) (by simp)
  | submittedUnknown scheduler job todo rest hMain hUnknown =>
    exact .main _ _ rfl (.same rfl) (by simp)
  | submitted scheduler job todo rest hMain hNot hJob =>
    exact .main _ _ rfl (.queued scheduler job todo rest hMain hJob rfl) (by simp)
  | submittedAll scheduler rest hMain => exact .main _ _ rfl (.same rfl) (by simp)
  | worked job worker worker' action hWorker hPool hWorks =>
    exact .worked job worker worker' action hWorker hWorks
  | collectedResult scheduler rest integrityFailed job result published hMain hFresh hWorker =>
    have hCollects := collectResult_collects (s := { s with collected := job :: s.collected })
      scheduler rest integrityFailed job result published
    exact .main _ _ hCollects.history (.same hCollects.futures) (by simp)
  | collectedIntegrityError scheduler rest integrityFailed job name version expected actual hMain
      hFresh hWorker =>
    have hCollects := collectIntegrityError_collects (s := { s with collected := job :: s.collected })
      scheduler rest job
    exact .main _ _ hCollects.history (.same hCollects.futures) (by simp)
  | collectedException scheduler rest integrityFailed job message hMain hFresh hWorker =>
    exact .main _ _ rfl (.same rfl) (by simp)
  | closedPool scheduler rest integrityFailed hMain hAll => exact .main _ _ rfl (.same rfl) (by simp)
  | aborted error hMain hIdle => exact .main _ _ rfl (.same rfl) (by simp)
  | finished scheduler integrityFailed now hMain => exact .main _ _ rfl (.same rfl) (by simp)
  | interrupted message hEnded hAborting => exact .main _ _ rfl (.same rfl) (by simp)

/-- A property that calls have when they are queued, and keep as they advance. -/
theorem Moves.workers {P : String → Worker → Prop} (h : Moves host registry pipeline s e t)
    (hOld : ∀ job worker, s.futures.get? job = some worker → P job worker)
    (hQueued : ∀ job ∈ pipeline.jobs.keys, P job .queued)
    (hWorked : ∀ job worker action worker', s.futures.get? job = some worker → e = .work job action →
      Works host pipeline s.run.lockfile job worker action worker' → P job worker') :
    ∀ job worker, t.futures.get? job = some worker → P job worker := by
  intro j w hGet
  cases h.poolStep with
  | worked job worker worker' action hWorker hWorks =>
    rw [Execution.worked, Dict.get?_set] at hGet
    split at hGet
    · rename_i hSame
      cases hGet
      subst hSame
      exact hWorked j worker action w hWorker rfl hWorks
    · exact hOld j w hGet
  | main e t hHistory hPool hEvent =>
    cases hPool with
    | same hFutures => exact hOld j w (hFutures ▸ hGet)
    | opened scheduler rest integrityFailed hMain hFutures =>
      rw [hFutures] at hGet
      cases hGet
    | queued scheduler job todo rest hMain hJob hFutures =>
      rw [hFutures, Dict.get?_set] at hGet
      split at hGet
      · rename_i hSame
        cases hGet
        subst hSame
        exact hQueued j hJob
      · exact hOld j w hGet

/-! ## The invariant of the pool -/

/-- A done worker takes no more steps. -/
theorem Works.not_done {lockfile : Option Lockfile} {job : String} {worker worker' : Worker}
    {action : Action} (h : Works host pipeline lockfile job worker action worker') :
    worker.isDone = false := by
  cases h with
  | raised worker message hActive =>
    simp only [Worker.isActive, Bool.and_eq_true, Bool.not_eq_true'] at hActive
    exact hActive.2
  | _ => rfl

def PoolInv (s : Execution) : Prop :=
  match s.main with
  | .queued => s.Idle
  | .resolved => s.Idle
  | .levels _ rest _ => (∀ level ∈ rest, level.Nodup) ∧ s.Idle
  | .submitting _ todo rest => (∀ level ∈ rest, level.Nodup) ∧ todo.Nodup ∧
      (∀ job ∈ todo, job ∉ s.futures.keys) ∧ s.collected = []
  | .collecting _ rest _ => (∀ level ∈ rest, level.Nodup) ∧
      ∀ job ∈ s.collected, ∀ worker, s.futures.get? job = some worker → worker.isDone = true
  | .aborting _ => True
  | .ended => s.Idle

theorem poolInv_initial : PoolInv .initial := by
  intro job worker hGet
  cases hGet

theorem StopsEarly.poolInv (h : StopsEarly s t) (hIdle : s.Idle) : PoolInv t := by
  cases h with
  | ends status error hStatus => exact hIdle
  | aborts error => trivial

theorem Collects.poolInv {job : String} {worker : Worker} {scheduler : DAGScheduler}
    {rest : List (List String)} {integrityFailed : Bool} (hInv : PoolInv s)
    (hMain : s.main = .collecting scheduler rest integrityFailed)
    (hWorker : s.futures.get? job = some worker) (hDone : worker.isDone = true)
    (h : Collects rest { s with collected := job :: s.collected } t) : PoolInv t := by
  rw [PoolInv, hMain] at hInv
  rcases h.main with ⟨scheduler', integrityFailed', hMain'⟩ | ⟨error, hMain'⟩
  · rw [PoolInv, hMain', h.collected, h.futures]
    refine ⟨hInv.1, ?_⟩
    intro other hOther worker' hGet
    rcases List.mem_cons.mp hOther with rfl | hOld
    · cases hWorker.symm.trans hGet
      exact hDone
    · exact hInv.2 other hOld worker' hGet
  · rw [PoolInv, hMain']
    trivial

/-- The main thread has yet to collect the job's future, if it ever does. -/
def Execution.Awaits (s : Execution) (job : String) : Prop :=
  match s.main with
  | .submitting _ _ _ => job ∉ s.collected
  | .collecting _ _ _ => job ∉ s.collected
  | .aborting _ => True
  | _ => False

theorem PoolInv.awaits {job : String} {worker : Worker} (hInv : PoolInv s)
    (hWorker : s.futures.get? job = some worker) (hNotDone : worker.isDone = false) : s.Awaits job := by
  have hBusy := not_idle hWorker hNotDone
  rw [PoolInv] at hInv
  rw [Execution.Awaits]
  cases hMain : s.main with
  | levels scheduler rest integrityFailed =>
    rw [hMain] at hInv
    exact hBusy hInv.2
  | submitting scheduler todo rest =>
    rw [hMain] at hInv
    rw [hInv.2.2.2]
    exact List.not_mem_nil
  | collecting scheduler rest integrityFailed =>
    rw [hMain] at hInv
    intro hOld
    rw [hInv.2 job hOld worker hWorker] at hNotDone
    cases hNotDone
  | aborting error => trivial
  | _ =>
    rw [hMain] at hInv
    exact hBusy hInv

theorem PoolInv.worked {job : String} {worker worker' : Worker} {action : Action} (hInv : PoolInv s)
    (hWorker : s.futures.get? job = some worker) (hNotDone : worker.isDone = false) :
    PoolInv (s.worked job worker action worker') := by
  have hBusy := not_idle hWorker hNotDone
  have hKeys := Dict.keys_set_of_get? worker' hWorker
  simp only [PoolInv, Execution.worked] at hInv ⊢
  split at hInv
  · exact absurd hInv hBusy
  · exact absurd hInv hBusy
  · exact absurd hInv.2 hBusy
  · rw [hKeys]
    exact hInv
  · refine ⟨hInv.1, ?_⟩
    intro other hOther worker₁ hGet
    rw [Dict.get?_set] at hGet
    split at hGet
    · rename_i hSame
      subst hSame
      rw [hInv.2 other hOther worker hWorker] at hNotDone
      cases hNotDone
    · exact hInv.2 other hOther worker₁ hGet
  · trivial
  · exact absurd hInv hBusy

theorem Moves.poolInv (hPlan : ∀ scheduler plan, Plans pipeline scheduler plan → ∀ level ∈ plan, level.Nodup)
    (hInv : PoolInv s) (h : Moves host registry pipeline s e t) : PoolInv t := by
  cases h with
  | resolved lockfile hMain hResolves =>
    rw [PoolInv, hMain] at hInv
    exact hInv
  | unresolved t hMain hNot hStops =>
    rw [PoolInv, hMain] at hInv
    exact hStops.poolInv hInv
  | planned scheduler plan hMain hPlans =>
    rw [PoolInv, hMain] at hInv
    exact ⟨hPlan scheduler plan hPlans, hInv⟩
  | unplanned t hMain hNot hStops =>
    rw [PoolInv, hMain] at hInv
    exact hStops.poolInv hInv
  | skippedLevel scheduler level rest hMain =>
    rw [PoolInv, hMain] at hInv
    exact ⟨fun other hOther => hInv.1 other (List.mem_cons_of_mem level hOther), hInv.2⟩
  | refusedPool scheduler level rest hMain hLimit => trivial
  | openedPool scheduler level rest hMain hLimit =>
    rw [PoolInv, hMain] at hInv
    exact ⟨fun other hOther => hInv.1 other (List.mem_cons_of_mem level hOther),
      hInv.1 level List.mem_cons_self, fun job _ hKey => List.not_mem_nil hKey, rfl⟩
  | submittedSkipped scheduler job todo rest hMain hSkipped =>
    rw [PoolInv, hMain] at hInv
    obtain ⟨hRest, hTodo, hFresh, hCollected⟩ := hInv
    exact ⟨hRest, hTodo.of_cons, fun j hj => hFresh j (List.mem_cons_of_mem job hj), hCollected⟩
  | submittedUnknown scheduler job todo rest hMain hUnknown => trivial
  | submitted scheduler job todo rest hMain hNot hJob =>
    rw [PoolInv, hMain] at hInv
    obtain ⟨hRest, hTodo, hFresh, hCollected⟩ := hInv
    refine ⟨hRest, hTodo.of_cons, ?_, hCollected⟩
    intro j hj hKey
    rw [Dict.mem_keys_set] at hKey
    rcases hKey with rfl | hOld
    · exact (List.nodup_cons.mp hTodo).1 hj
    · exact hFresh j (List.mem_cons_of_mem job hj) hOld
  | submittedAll scheduler rest hMain =>
    rw [PoolInv, hMain] at hInv
    refine ⟨hInv.1, ?_⟩
    intro job hJob
    rw [show s.collected = [] from hInv.2.2.2] at hJob
    cases hJob
  | worked job worker worker' action hWorker hPool hWorks => exact hInv.worked hWorker hWorks.not_done
  | collectedResult scheduler rest integrityFailed job result published hMain hFresh hWorker =>
    exact (collectResult_collects scheduler rest integrityFailed job result published).poolInv hInv
      hMain hWorker rfl
  | collectedIntegrityError scheduler rest integrityFailed job name version expected actual hMain
      hFresh hWorker =>
    exact (collectIntegrityError_collects scheduler rest job).poolInv hInv hMain hWorker rfl
  | collectedException scheduler rest integrityFailed job message hMain hFresh hWorker => trivial
  | closedPool scheduler rest integrityFailed hMain hAll =>
    rw [PoolInv, hMain] at hInv
    refine ⟨hInv.1, ?_⟩
    intro job worker hGet
    exact hInv.2 job (hAll job (Dict.mem_keys_of_get? hGet)) worker hGet
  | aborted error hMain hIdle => exact Execution.idle_iff.mp hIdle
  | finished scheduler integrityFailed now hMain =>
    rw [PoolInv, hMain] at hInv
    exact hInv.2
  | interrupted message hEnded hAborting => trivial

end Forge.Engine
