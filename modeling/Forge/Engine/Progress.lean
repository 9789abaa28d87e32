import Forge.Engine.Launch
import Forge.Engine.LogFollowers
import Forge.Engine.Termination

/-! # Completion, and what runs at the same time

A run takes finitely many steps, and as long as it has not ended the engine can take one of its own or waits for
the registry or a container. A container may never exit, and then the run waits for ever. The threads at work at
one moment are no more than the pool has, and none of their jobs needs another.
-/
namespace Forge.Engine
open Forge.Python Forge.Registry Forge.Theory Relation
set_option autoImplicit false

variable {host : Host} {registry : RegistryClient} {pipeline : PipelineConfig} {s t : Execution}
  {e : Event} {events : List Event}

/-! ## Completion -/

/-- What a worker waits for: the answers of the registry to its requests, its container, and its exit. -/
inductive Worker.Awaits : Worker → Action → Prop where
  | pull (dep : DepPull) (rest : List DepPull) (statusCode : Nat) (content : Bytes) :
      Awaits (.pulling (dep :: rest)) (.pull statusCode content)
  | launch : Awaits (.pulling []) .launch
  | exit (exitCode : Int) : Awaits .running (.exit exitCode)
  | handle (artifact : PipelineArtifact) (data : Bytes) (rest : List PipelineArtifact)
      (published : List PublishedArtifact) (statusCode : Nat) (text : String) :
      Awaits (.posting artifact data rest published) (.handle statusCode text)
  | receive (artifact : PipelineArtifact) (data : Bytes) (statusCode : Nat) (text : String)
      (rest : List PipelineArtifact) (published : List PublishedArtifact) :
      Awaits (.answered artifact data statusCode text rest published) .receive

theorem run_overInv (hRun : Run (Execution.Step host registry pipeline) .initial events s) :
    PoolInv s ∧ (s.Over ↔ s.main.isEnded = true) := by
  have hKeeps := hRun.invariant fun s e t (h : PoolInv s ∧ (s.Over ↔ s.main.isEnded = true)) hStep =>
    And.intro (hStep.moves.poolInv Plans.nodup h.1) (hStep.moves.over_iff h.2)
  exact hKeeps ⟨poolInv_initial, iff_of_false Bool.noConfusion Bool.noConfusion⟩

def Worker.activity (worker : Worker) : ℕ := if worker.isActive then 1 else 0

theorem activeCount_eq (s : Execution) : s.activeCount = s.futures.total Worker.activity := by
  rw [Execution.activeCount, Dict.total]
  induction s.futures.values with
  | nil => rfl
  | cons worker rest ih =>
    rw [List.countP_cons, ih, List.map_cons, List.sum_cons, Worker.activity, Nat.add_comm]

theorem Works.active_of_ne_start {lockfile : Option Lockfile} {job : String} {worker worker' : Worker}
    {action : Action} (h : Works host pipeline lockfile job worker action worker') (hAction : action ≠ .start) :
    worker.isActive = true := by
  cases h with
  | started => exact absurd rfl hAction
  | raised worker message hActive => exact hActive
  | _ => rfl

theorem Moves.poolAllows {job : String} {action : Action}
    (h : Moves host registry pipeline s (.work job action) t) : s.poolAllows host job action = true := by
  cases h with
  | worked job worker worker' action hWorker hPool hWorks => exact hPool

/-- Only a start adds to the threads at work, and the pool allows it below its limit only. -/
theorem Moves.activeCount_le (h : Moves host registry pipeline s e t)
    (hOld : (s.activeCount : ℤ) ≤ max host.concurrencyLimit 0) :
    (t.activeCount : ℤ) ≤ max host.concurrencyLimit 0 := by
  cases h.poolStep with
  | main e t hHistory hPool hEvent =>
    cases hPool with
    | same hFutures => rwa [Execution.activeCount, hFutures]
    | opened scheduler rest integrityFailed hMain hFutures =>
      rw [Execution.activeCount, hFutures]
      exact le_max_right _ _
    | queued scheduler job todo rest hMain hJob hFutures =>
      have hSame : t.activeCount ≤ s.activeCount := by
        rw [activeCount_eq, activeCount_eq, hFutures]
        cases hGet : s.futures.get? job with
        | none =>
          have hTotal := Dict.total_set_of_notMem Worker.activity .queued (Dict.get?_eq_none_iff.mp hGet)
          exact hTotal.le
        | some worker =>
          have hTotal := Dict.total_set Worker.activity .queued hGet
          have hIdle : Worker.activity .queued = 0 := rfl
          omega
      omega
  | worked job worker worker' action hWorker hWorks =>
    have hTotal := Dict.total_set Worker.activity worker' hWorker
    have hNew : worker'.activity ≤ 1 := by
      unfold Worker.activity
      split
      · exact le_rfl
      · exact Nat.zero_le 1
    rw [activeCount_eq] at hOld ⊢
    change ((s.futures.set job worker').total Worker.activity : ℤ) ≤ _
    by_cases hAction : action = .start
    · have hAllowed := h.poolAllows
      simp only [hAction, Execution.poolAllows, Bool.and_eq_true, decide_eq_true_eq, activeCount_eq] at hAllowed
      have hBelow := hAllowed.2
      omega
    · have hActive : worker.activity = 1 := if_pos (hWorks.active_of_ne_start hAction)
      omega

/-- The call has been submitted and is not done. -/
def Execution.Owes (s : Execution) (job : String) : Prop :=
  ∃ worker, s.futures.get? job = some worker ∧ worker.isDone = false

theorem Execution.Owes.worked {job other : String} {worker worker' : Worker} {action : Action}
    (hWorker : s.futures.get? job = some worker)
    (hWorks : Works host pipeline s.run.lockfile job worker action worker')
    (h : (s.worked job worker action worker').Owes other) : s.Owes other := by
  obtain ⟨w, hGet, hDone⟩ := h
  rw [Execution.worked, Dict.get?_set] at hGet
  split at hGet
  · rename_i hSame
    exact ⟨worker, hSame ▸ hWorker, hWorks.not_done⟩
  · exact ⟨w, hGet, hDone⟩

def Apart (jobs : JobsConfig) (s : Execution) : Prop :=
  ∀ j k, s.Owes j → s.Owes k → ¬ TransGen (Needs jobs) j k

section
variable {g : JobGraph} {plan : List (List String)}

/-- The calls of one pool belong to one level. -/
theorem Moves.apart {scheduler₀ : DAGScheduler} (hPlanned : Planned g pipeline scheduler₀ plan)
    (hRecords : RecordsInv g plan events s) (hOld : Apart g.jobs s) (h : Moves host registry pipeline s e t) :
    Apart g.jobs t := by
  cases h.poolStep with
  | worked job worker worker' action hWorker hWorks =>
    exact fun j k hj hk => hOld j k (hj.worked hWorker hWorks) (hk.worked hWorker hWorks)
  | main e t hHistory hPool hEvent =>
    cases hPool with
    | same hFutures =>
      simpa only [Apart, Execution.Owes, hFutures] using hOld
    | opened scheduler rest integrityFailed hMain hFutures =>
      rintro j k ⟨worker, hGet, -⟩
      rw [hFutures] at hGet
      cases hGet
    | queued scheduler job todo rest hMain hJob hFutures =>
      have hPhase := hRecords.phase
      rw [RecordsPhase, hMain] at hPhase
      obtain ⟨pre, sub, hSplit, hOpen⟩ := hPhase
      have hLevel : ∀ j, t.Owes j → g.level j = pre.length := by
        rintro j ⟨worker, hGet, -⟩
        rw [hFutures, Dict.get?_set] at hGet
        split at hGet
        · rename_i hSame
          exact ((hPlanned.levels.mem_level_iff hSplit j).mp (by simp [hSame])).2
        · exact (hOpen.level j (hOpen.members j (Dict.mem_keys_of_get? hGet))).2
      intro j k hj hk hNeeds
      have hLess := JobGraph.level_lt hNeeds
      rw [hLevel j hj, hLevel k hk] at hLess
      exact lt_irrefl _ hLess

end

/-- Without a plan there is no pool. -/
def Poolless (s : Execution) : Prop :=
  s.futures = .empty ∧ (s.main = .queued ∨ s.main = .resolved ∨ s.main.isAborting = true ∨ s.main.isEnded = true)

theorem Moves.poolless (hNone : ¬ ∃ scheduler plan, Plans pipeline scheduler plan) (hOld : Poolless s)
    (h : Moves host registry pipeline s e t) : Poolless t := by
  obtain ⟨hFutures, hMain⟩ := hOld
  cases h with
  | resolved lockfile hQueued hResolves => exact ⟨hFutures, .inr (.inl rfl)⟩
  | unresolved t hQueued hNot hStops => exact ⟨hStops.futures.trans hFutures, .inr (.inr hStops.main)⟩
  | planned scheduler plan hResolved hPlans => exact absurd ⟨scheduler, plan, hPlans⟩ hNone
  | unplanned t hResolved hNot hStops => exact ⟨hStops.futures.trans hFutures, .inr (.inr hStops.main)⟩
  | worked job worker worker' action hWorker hPool hWorks =>
    rw [hFutures] at hWorker
    cases hWorker
  | aborted error hAborting hIdle => exact ⟨hFutures, .inr (.inr (.inr rfl))⟩
  | interrupted message hEnded hAborting => exact ⟨hFutures, .inr (.inr (.inl rfl))⟩
  | _ => simp_all [Main.isAborting, Main.isEnded]

theorem run_apart (hRun : Run (Execution.Step host registry pipeline) .initial events s) :
    Apart pipeline.jobs s := by
  by_cases hPlans : ∃ scheduler plan, Plans pipeline scheduler plan
  · obtain ⟨scheduler, plan, hPlans⟩ := hPlans
    obtain ⟨g, hPlanned⟩ := hPlans.exists_planned
    have hKeeps := hRun.traces fun before s e t
        (h : (PoolInv s ∧ RecordsInv g plan before s) ∧ Apart g.jobs s) hStep =>
      And.intro (And.intro (hStep.moves.poolInv Plans.nodup h.1.1) (h.1.2.moves hPlanned h.1.1 hStep.moves))
        (hStep.moves.apart hPlanned h.1.2 h.2)
    rw [hPlanned.jobs_eq]
    refine (hKeeps [] ⟨⟨poolInv_initial, recordsInv_initial⟩, ?_⟩).2
    rintro j k ⟨worker, hGet, -⟩
    cases hGet
  · have hKeeps := hRun.invariant fun s e t (h : Poolless s) hStep => hStep.moves.poolless hPlans h
    have hEmpty := (hKeeps ⟨rfl, .inl rfl⟩).1
    rintro j k ⟨worker, hGet, -⟩
    rw [hEmpty] at hGet
    cases hGet

/-- A pool is replaced only when all of its calls are done. -/
theorem Moves.owes (hPool : PoolInv s) (h : Moves host registry pipeline s e t) {job : String}
    (hOwes : s.Owes job) : ∃ worker, t.futures.get? job = some worker := by
  obtain ⟨worker, hGet, hDone⟩ := hOwes
  cases h.poolStep with
  | worked other old new action hWorker hWorks =>
    rw [Execution.worked, Dict.get?_set]
    split
    · exact ⟨new, rfl⟩
    · exact ⟨worker, hGet⟩
  | main e t hHistory hChange hEvent =>
    cases hChange with
    | same hFutures => exact ⟨worker, hFutures ▸ hGet⟩
    | opened scheduler rest integrityFailed hMain hFutures =>
      rw [PoolInv, hMain] at hPool
      exact absurd hPool.2 (not_idle hGet hDone)
    | queued scheduler queuedJob todo rest hMain hJob hFutures =>
      rw [hFutures, Dict.get?_set]
      split
      · exact ⟨.queued, rfl⟩
      · exact ⟨worker, hGet⟩

/-- In every interleaving the threads at work are at most as many as the pool has, none of their jobs needs
another of them, and no call that has been submitted is given up before it is done. -/
theorem pool_exclusion (hRun : Run (Execution.Step host registry pipeline) .initial events s) :
    (s.activeCount : ℤ) ≤ max host.concurrencyLimit 0 ∧
      (∀ j k, s.Owes j → s.Owes k → ¬ TransGen (Needs pipeline.jobs) j k) ∧
      ∀ e t, Execution.Step host registry pipeline s e t → ∀ job, s.Owes job →
        ∃ worker, t.futures.get? job = some worker := by
  refine ⟨?_, run_apart hRun, ?_⟩
  · have hKeeps := hRun.invariant fun s e t (h : (s.activeCount : ℤ) ≤ max host.concurrencyLimit 0) hStep =>
      hStep.moves.activeCount_le h
    exact hKeeps (le_max_right _ _)
  · exact fun e t hStep job hOwes => hStep.moves.owes (run_overInv hRun).1 hOwes

/-- `build` and `lint` are in their containers at the same time. -/
theorem pool_exclusion_release : ∃ s : Execution,
    Run (Execution.Step exampleHost emptyRegistry (releasePipeline [])) .initial (releaseEvents.take 10) s ∧
      s.activeCount = 2 ∧ (s.activeCount : ℤ) ≤ max exampleHost.concurrencyLimit 0 ∧
      ∀ j k, s.Owes j → s.Owes k → ¬ TransGen (Needs (releasePipeline []).jobs) j k := by
  have hRun : ∃ s, Run (Execution.Step exampleHost emptyRegistry (releasePipeline [])) .initial
      (releaseEvents.take 10) s ∧ s.activeCount = 2 := ⟨_, run_stepsOf_iff.mpr rfl, rfl⟩
  obtain ⟨s, hRun, hActive⟩ := hRun
  have hExcludes := pool_exclusion hRun
  exact ⟨s, hRun, hActive, hExcludes.1, hExcludes.2.1⟩

end Forge.Engine
