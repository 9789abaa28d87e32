import Mathlib.Data.Prod.Lex
import Forge.Engine.Pool

/-! # Every run comes to an end

Each step of an execution lowers a rank, so no run is infinite. And as long as the world outside answers,
an execution that has not ended has a step to take.
-/
namespace Forge.Engine
open Forge.Python Forge.Registry Forge.Theory
set_option autoImplicit false

variable {host : Host} {registry : RegistryClient} {pipeline : PipelineConfig} {s t : Execution}
  {e : Event}

/-! ## The rank -/

/-- A bound for the steps that a worker still has to take. -/
def Worker.cost (pipeline : PipelineConfig) (lockfile : Option Lockfile) : Worker → ℕ
  | .queued => 4 + 4 * pipeline.artifacts.length + (depsOf lockfile).length
  | .pulling deps => 3 + 4 * pipeline.artifacts.length + deps.length
  | .running => 2 + 4 * pipeline.artifacts.length
  | .walking artifacts _ => 1 + 4 * artifacts.length
  | .posting _ _ artifacts _ => 3 + 4 * artifacts.length
  | .answered _ _ _ _ artifacts _ => 2 + 4 * artifacts.length
  | .returned _ _ => 0
  | .raised _ => 0

theorem Works.cost_lt {lockfile : Option Lockfile} {job : String} {worker worker' : Worker}
    {action : Action} (h : Works host pipeline lockfile job worker action worker') :
    worker'.cost pipeline lockfile < worker.cost pipeline lockfile := by
  cases h with
  | raised worker message hActive =>
    cases worker with
    | returned result published => cases hActive
    | raised exc => cases hActive
    | _ =>
      simp only [Worker.cost]
      omega
  | _ =>
    simp only [Worker.cost, List.length_cons]
    omega

/-- The phase, the levels to come, and where the main thread stands in its level. -/
def Main.rank : Main → ℕ × ℕ × ℕ
  | .queued => (4, 0, 0)
  | .resolved => (3, 0, 0)
  | .levels _ rest _ => (2, rest.length, 0)
  | .submitting _ todo rest => (2, rest.length, 2 + todo.length)
  | .collecting _ rest _ => (2, rest.length, 1)
  | .aborting _ => (1, 0, 0)
  | .ended => (0, 0, 0)

def Execution.uncollected (s : Execution) : ℕ := s.futures.keys.countP fun job => job ∉ s.collected

def Execution.rank (pipeline : PipelineConfig) (s : Execution) : ℕ ×ₗ ℕ ×ₗ ℕ ×ₗ ℕ :=
  toLex (s.main.rank.1, toLex (s.main.rank.2.1, toLex (s.main.rank.2.2,
    s.futures.total (Worker.cost pipeline s.run.lockfile) + s.uncollected)))

section
variable {m m' : Main}

theorem rank_lt_of_phase (hs : s.main = m) (ht : t.main = m') (h : m'.rank.1 < m.rank.1) :
    t.rank pipeline < s.rank pipeline := by
  rw [Execution.rank, Execution.rank, hs, ht]
  exact Prod.Lex.toLex_lt_toLex.mpr (.inl h)

theorem rank_lt_of_level (hs : s.main = m) (ht : t.main = m') (hPhase : m'.rank.1 = m.rank.1)
    (h : m'.rank.2.1 < m.rank.2.1) : t.rank pipeline < s.rank pipeline := by
  rw [Execution.rank, Execution.rank, hs, ht]
  exact Prod.Lex.toLex_lt_toLex.mpr (.inr ⟨hPhase, Prod.Lex.toLex_lt_toLex.mpr (.inl h)⟩)

theorem rank_lt_of_place (hs : s.main = m) (ht : t.main = m') (hPhase : m'.rank.1 = m.rank.1)
    (hLevel : m'.rank.2.1 = m.rank.2.1) (h : m'.rank.2.2 < m.rank.2.2) :
    t.rank pipeline < s.rank pipeline := by
  rw [Execution.rank, Execution.rank, hs, ht]
  exact Prod.Lex.toLex_lt_toLex.mpr (.inr ⟨hPhase, Prod.Lex.toLex_lt_toLex.mpr (.inr ⟨hLevel,
    Prod.Lex.toLex_lt_toLex.mpr (.inl h)⟩)⟩)

end

theorem rank_lt_of_work (hMain : t.main.rank = s.main.rank)
    (h : t.futures.total (Worker.cost pipeline t.run.lockfile) + t.uncollected <
      s.futures.total (Worker.cost pipeline s.run.lockfile) + s.uncollected) :
    t.rank pipeline < s.rank pipeline := by
  rw [Execution.rank, hMain]
  exact Prod.Lex.toLex_lt_toLex.mpr (.inr ⟨rfl, Prod.Lex.toLex_lt_toLex.mpr (.inr ⟨rfl,
    Prod.Lex.toLex_lt_toLex.mpr (.inr ⟨rfl, h⟩)⟩)⟩)

theorem StopsEarly.rank_lt (h : StopsEarly s t) (hMain : 1 < s.main.rank.1) :
    t.rank pipeline < s.rank pipeline := by
  cases h with
  | ends status error hStatus => exact rank_lt_of_phase rfl rfl (Nat.lt_trans Nat.zero_lt_one hMain)
  | aborts error => exact rank_lt_of_phase rfl rfl hMain

theorem uncollected_lt {job : String} (hJob : job ∈ s.futures.keys) (hFresh : job ∉ s.collected)
    (hFutures : t.futures = s.futures) (hCollected : t.collected = job :: s.collected) :
    t.uncollected < s.uncollected := by
  rw [Execution.uncollected, Execution.uncollected, hFutures, hCollected]
  obtain ⟨pre, post, hSplit⟩ := List.append_of_mem hJob
  have hPre : pre.countP (fun j => j ∉ job :: s.collected) ≤ pre.countP fun j => j ∉ s.collected :=
    List.countP_mono_left (by simp +contextual)
  have hPost : post.countP (fun j => j ∉ job :: s.collected) ≤ post.countP fun j => j ∉ s.collected :=
    List.countP_mono_left (by simp +contextual)
  rw [hSplit, List.countP_append, List.countP_append, List.countP_cons, List.countP_cons]
  simp only [List.mem_cons, true_or, not_true_eq_false, decide_false, Bool.false_eq_true, if_false,
    hFresh, not_false_eq_true, decide_true, if_true] at hPre hPost ⊢
  omega

theorem Collects.rank_lt {job : String} {worker : Worker} {scheduler : DAGScheduler}
    {rest : List (List String)} {integrityFailed : Bool}
    (hMain : s.main = .collecting scheduler rest integrityFailed) (hFresh : job ∉ s.collected)
    (hWorker : s.futures.get? job = some worker)
    (h : Collects rest { s with collected := job :: s.collected } t) :
    t.rank pipeline < s.rank pipeline := by
  rcases h.main with ⟨scheduler', integrityFailed', hMain'⟩ | ⟨error, hMain'⟩
  · apply rank_lt_of_work
    · rw [hMain, hMain']
      rfl
    · have hLess := uncollected_lt (Dict.mem_keys_of_get? hWorker) hFresh h.futures h.collected
      rw [h.futures, h.lockfile]
      exact Nat.add_lt_add_left hLess _
  · exact rank_lt_of_phase hMain hMain' Nat.one_lt_two

theorem worked_rank_lt {job : String} {worker worker' : Worker} {action : Action}
    (hWorker : s.futures.get? job = some worker)
    (hCost : worker'.cost pipeline s.run.lockfile < worker.cost pipeline s.run.lockfile) :
    (s.worked job worker action worker').rank pipeline < s.rank pipeline := by
  have hKeys := Dict.keys_set_of_get? worker' hWorker
  have hTotal := Dict.total_set (Worker.cost pipeline s.run.lockfile) worker' hWorker
  have hUncollected : (s.worked job worker action worker').uncollected = s.uncollected := by
    change (s.futures.set job worker').keys.countP _ = _
    rw [hKeys]
    rfl
  apply rank_lt_of_work
  · rfl
  · rw [hUncollected]
    simp only [Execution.worked]
    omega

theorem one_lt_rank {m : Main} (hEnded : m.isEnded = false) (hAborting : m.isAborting = false) :
    1 < m.rank.1 := by
  cases m with
  | aborting error => cases hAborting
  | ended => cases hEnded
  | _ => simp [Main.rank]

theorem Moves.rank_lt (h : Moves host registry pipeline s e t) : t.rank pipeline < s.rank pipeline := by
  cases h with
  | resolved lockfile hMain hResolves => exact rank_lt_of_phase hMain rfl (Nat.lt_succ_self 3)
  | unresolved t hMain hNot hStops =>
    apply hStops.rank_lt
    rw [hMain]
    decide
  | planned scheduler plan hMain hPlans => exact rank_lt_of_phase hMain rfl (Nat.lt_succ_self 2)
  | unplanned t hMain hNot hStops =>
    apply hStops.rank_lt
    rw [hMain]
    decide
  | skippedLevel scheduler level rest hMain =>
    exact rank_lt_of_level hMain rfl rfl (Nat.lt_succ_self rest.length)
  | refusedPool scheduler level rest hMain hLimit => exact rank_lt_of_phase hMain rfl Nat.one_lt_two
  | openedPool scheduler level rest hMain hLimit =>
    exact rank_lt_of_level hMain rfl rfl (Nat.lt_succ_self rest.length)
  | submittedSkipped scheduler job todo rest hMain hSkipped =>
    exact rank_lt_of_place hMain rfl rfl rfl (Nat.lt_succ_self (2 + todo.length))
  | submittedUnknown scheduler job todo rest hMain hUnknown =>
    exact rank_lt_of_phase hMain rfl Nat.one_lt_two
  | submitted scheduler job todo rest hMain hNot hJob =>
    exact rank_lt_of_place hMain rfl rfl rfl (Nat.lt_succ_self (2 + todo.length))
  | submittedAll scheduler rest hMain => exact rank_lt_of_place hMain rfl rfl rfl Nat.one_lt_two
  | worked job worker worker' action hWorker hPool hWorks =>
    exact worked_rank_lt hWorker hWorks.cost_lt
  | collectedResult scheduler rest integrityFailed job result published hMain hFresh hWorker =>
    exact (collectResult_collects scheduler rest integrityFailed job result published).rank_lt hMain
      hFresh hWorker
  | collectedIntegrityError scheduler rest integrityFailed job name version expected actual hMain
      hFresh hWorker =>
    exact (collectIntegrityError_collects scheduler rest job).rank_lt hMain hFresh hWorker
  | collectedException scheduler rest integrityFailed job message hMain hFresh hWorker =>
    exact rank_lt_of_phase hMain rfl Nat.one_lt_two
  | closedPool scheduler rest integrityFailed hMain hAll =>
    exact rank_lt_of_place hMain rfl rfl rfl Nat.zero_lt_one
  | aborted error hMain hIdle => exact rank_lt_of_phase hMain rfl Nat.zero_lt_one
  | finished scheduler integrityFailed now hMain => exact rank_lt_of_phase hMain rfl Nat.zero_lt_two
  | interrupted message hEnded hAborting =>
    exact rank_lt_of_phase rfl rfl (one_lt_rank hEnded hAborting)

/-- No run is infinite. -/
theorem execution_wellFounded :
    WellFounded fun t s => ∃ e, Execution.Step host registry pipeline s e t :=
  Subrelation.wf (fun ⟨_, hStep⟩ => hStep.moves.rank_lt)
    (InvImage.wf (Execution.rank pipeline) wellFounded_lt)

/-! ## Progress -/

theorem Worker.eq_queued {worker : Worker} (h : worker.isQueued = true) : worker = .queued := by
  cases worker with
  | queued => rfl
  | _ => cases h

theorem poolAllows_of_active {job : String} {worker worker' : Worker} {action : Action}
    (hActive : worker.isActive = true)
    (hJob : executeJob host pipeline s.run.lockfile job worker action = some worker') :
    s.poolAllows host job action = true := by
  cases action with
  | start =>
    cases executeJob_works hJob with
    | started => cases hActive
  | _ => rfl

theorem work_eq {job : String} {worker worker' : Worker} {action : Action}
    (hWorker : s.futures.get? job = some worker) (hPool : s.poolAllows host job action = true)
    (hJob : executeJob host pipeline s.run.lockfile job worker action = some worker') :
    Execution.Step host registry pipeline s (.work job action) (s.worked job worker action worker') := by
  simp only [Execution.Step, stepsOf, executePipeline, Execution.work, hWorker, hPool, if_true, hJob]
  rfl

/-- While there is a free thread, the pool can start the next call. -/
theorem exists_startable (hRoom : (s.activeCount : Int) < host.concurrencyLimit) {job : String}
    {worker : Worker} (hWorker : s.futures.get? job = some worker) (hQueued : worker.isQueued = true) :
    ∃ next, s.futures.get? next = some .queued ∧ s.poolAllows host next .start = true := by
  have hMem : (job, worker) ∈ s.futures.entries := Dict.get?_eq_some_iff.mp hWorker
  have hSome : (s.futures.entries.find? fun entry => entry.2.isQueued).isSome = true :=
    List.find?_isSome.mpr ⟨(job, worker), hMem, hQueued⟩
  obtain ⟨entry, hFind⟩ := Option.isSome_iff_exists.mp hSome
  have hEntry : s.futures.get? entry.1 = some entry.2 :=
    Dict.get?_eq_some_iff.mpr (List.mem_of_find?_eq_some hFind)
  refine ⟨entry.1, ?_, ?_⟩
  · have hHere : entry.2.isQueued = true := by
      simpa using List.find?_some hFind
    rw [hEntry, Worker.eq_queued hHere]
  · simp only [Execution.poolAllows, Execution.nextQueued, hFind, Option.map_some]
    simpa using hRoom

theorem activeCount_eq_zero
    (hNone : ∀ job worker, s.futures.get? job = some worker → worker.isActive = false) :
    s.activeCount = 0 := by
  rw [Execution.activeCount, List.countP_eq_zero]
  intro other hOther
  obtain ⟨⟨j, w⟩, hIn, rfl⟩ := List.mem_map.mp hOther
  rw [hNone j w (Dict.get?_eq_some_iff.mpr hIn)]
  decide

section
variable {Ok : Execution → Event → Prop}

/-- What holds up a pool without a step: the workers that wait, and a full pool where a call is queued. -/
structure PoolWaits (host : Host) (Waits : String → Worker → Prop) (s : Execution) : Prop where
  active : ∀ job worker, s.futures.get? job = some worker → worker.isActive = true → Waits job worker
  full : ∀ job worker, s.futures.get? job = some worker → worker.isQueued = true →
    host.concurrencyLimit ≤ s.activeCount

theorem exists_work_step {Waits : String → Worker → Prop} (hStart : ∀ job, Ok s (.work job .start))
    (hWorker : ∀ job worker, s.futures.get? job = some worker → worker.isActive = true →
      Waits job worker ∨ ∃ action worker',
        executeJob host pipeline s.run.lockfile job worker action = some worker' ∧ Ok s (.work job action)) :
    (∃ e t, restrict (Execution.Step host registry pipeline) Ok s e t) ∨ PoolWaits host Waits s := by
  by_cases hStep : ∃ e t, restrict (Execution.Step host registry pipeline) Ok s e t
  · exact .inl hStep
  · refine .inr ⟨fun job worker hGet hActive => ?_, fun job worker hGet hQueued => ?_⟩
    · refine (hWorker job worker hGet hActive).resolve_right ?_
      rintro ⟨action, worker', hJob, hOk⟩
      exact hStep ⟨_, _, work_eq hGet (poolAllows_of_active hActive hJob) hJob, hOk⟩
    · by_contra hRoom
      obtain ⟨next, hNext, hPool⟩ := exists_startable (not_le.mp hRoom) hGet hQueued
      exact hStep ⟨_, _, work_eq hNext hPool rfl, hStart next⟩

/-- The main thread can go on unless it waits for the pool. -/
theorem exists_step_of_pool
    (hMain : ∀ e, (∀ job action, e ≠ .work job action) → (∀ message, e ≠ .interrupt message) → Ok s e)
    (hPool : ¬ s.Idle → ∃ e t, restrict (Execution.Step host registry pipeline) Ok s e t)
    (hEnded : s.main ≠ .ended) : ∃ e t, restrict (Execution.Step host registry pipeline) Ok s e t := by
  have hMove : ∀ e, (executePipeline host registry pipeline s e).isSome = true →
      (∀ job action, e ≠ .work job action) → (∀ message, e ≠ .interrupt message) →
      ∃ e t, restrict (Execution.Step host registry pipeline) Ok s e t := by
    intro e hSome hWork hInterrupt
    obtain ⟨t, hStep⟩ := Option.isSome_iff_exists.mp hSome
    exact ⟨e, t, hStep, hMain e hWork hInterrupt⟩
  cases hMain : s.main with
  | queued => exact hMove .resolve (by simp [executePipeline, hMain]) (by simp) (by simp)
  | resolved => exact hMove .plan (by simp [executePipeline, hMain]) (by simp) (by simp)
  | levels scheduler rest integrityFailed =>
    cases rest with
    | nil => exact hMove (.finish "") (by simp [executePipeline, hMain]) (by simp) (by simp)
    | cons level rest =>
      exact hMove .enterLevel (by simp [executePipeline, hMain]) (by simp) (by simp)
  | submitting scheduler todo rest =>
    cases todo with
    | nil => exact hMove .submit (by simp [executePipeline, hMain]) (by simp) (by simp)
    | cons job todo => exact hMove .submit (by simp [executePipeline, hMain]) (by simp) (by simp)
  | collecting scheduler rest integrityFailed =>
    by_cases hIdle : s.Idle
    · by_cases hAll : ∀ job ∈ s.futures.keys, job ∈ s.collected
      · exact hMove .closePool (by simpa [executePipeline, hMain] using hAll) (by simp) (by simp)
      · simp only [not_forall] at hAll
        obtain ⟨job, hJob, hFresh⟩ := hAll
        obtain ⟨worker, hWorker⟩ := Dict.mem_keys_iff.mp hJob
        have hDone := hIdle job worker hWorker
        have hCollect : ∃ t, s.collect scheduler rest integrityFailed job = some t := by
          simp only [Execution.collect, hWorker]
          cases worker with
          | returned result published => exact ⟨_, rfl⟩
          | raised exc => cases exc <;> exact ⟨_, rfl⟩
          | _ => cases hDone
        obtain ⟨t, hCollect⟩ := hCollect
        exact hMove (.collect job) (by simp [executePipeline, hMain, hFresh, hCollect]) (by simp)
          (by simp)
    · exact hPool hIdle
  | aborting error =>
    by_cases hIdle : s.Idle
    · have hDone := Execution.idle_iff.mpr hIdle
      exact hMove .abort (by simp [executePipeline, hMain, hDone]) (by simp) (by simp)
    · exact hPool hIdle
  | ended => exact absurd hMain hEnded

/-- What the world outside must allow for the workers to go on. -/
structure Answers (host : Host) (pipeline : PipelineConfig) (Ok : Execution → Event → Prop)
    (s : Execution) : Prop where
  main : ∀ e, (∀ job action, e ≠ .work job action) → (∀ message, e ≠ .interrupt message) → Ok s e
  start : ∀ job, Ok s (.work job .start)
  worker : ∀ job worker, s.futures.get? job = some worker → worker.isActive = true →
    ∃ action worker', executeJob host pipeline s.run.lockfile job worker action = some worker' ∧
      Ok s (.work job action)

theorem Execution.idle_or_busy (s : Execution) : s.Idle ∨ ∃ job worker,
    s.futures.get? job = some worker ∧ (worker.isQueued = true ∨ worker.isActive = true) := by
  by_cases hIdle : s.Idle
  · exact .inl hIdle
  · simp only [Execution.Idle, not_forall] at hIdle
    obtain ⟨job, worker, hGet, hNotDone⟩ := hIdle
    refine .inr ⟨job, worker, hGet, ?_⟩
    cases hQueued : worker.isQueued with
    | true => exact .inl rfl
    | false => exact .inr (by simpa [Worker.isActive, hQueued] using hNotDone)

theorem Answers.pool_step (h : Answers host pipeline Ok s) (hLimit : 0 < host.concurrencyLimit)
    (hBusy : ¬ s.Idle) : ∃ e t, restrict (Execution.Step host registry pipeline) Ok s e t := by
  have hNext : (∃ e t, restrict (Execution.Step host registry pipeline) Ok s e t) ∨
      PoolWaits host (fun _ _ => False) s :=
    exists_work_step h.start fun job worker hGet hActive => .inr (h.worker job worker hGet hActive)
  refine hNext.resolve_right fun hWaits => ?_
  have hNone : ∀ job worker, s.futures.get? job = some worker → worker.isActive = false :=
    fun job worker hGet => Bool.eq_false_iff.mpr (hWaits.active job worker hGet)
  obtain ⟨job, worker, hGet, hQueued | hActive⟩ := s.idle_or_busy.resolve_left hBusy
  · have hFull := hWaits.full job worker hGet hQueued
    rw [activeCount_eq_zero hNone] at hFull
    omega
  · exact hWaits.active job worker hGet hActive

theorem Answers.exists_step (h : Answers host pipeline Ok s) (hLimit : 0 < host.concurrencyLimit)
    (hEnded : s.main ≠ .ended) : ∃ e t, restrict (Execution.Step host registry pipeline) Ok s e t :=
  exists_step_of_pool h.main (h.pool_step hLimit) hEnded

/-- Every run can be continued until no step is left. -/
theorem exists_run_stuck (s : Execution) :
    ∃ events t, Run (restrict (Execution.Step host registry pipeline) Ok) s events t ∧
      ¬ ∃ e u, restrict (Execution.Step host registry pipeline) Ok t e u := by
  induction s using (@execution_wellFounded host registry pipeline).induction with
  | _ s ih =>
    by_cases hStep : ∃ e t, restrict (Execution.Step host registry pipeline) Ok s e t
    · obtain ⟨e, t, hStep⟩ := hStep
      obtain ⟨events, u, hRun, hStuck⟩ := ih t ⟨e, hStep.1⟩
      exact ⟨e :: events, u, .cons hStep hRun, hStuck⟩
    · exact ⟨[], s, .nil s, hStep⟩

/-- A run in a world that keeps answering can be continued to its end. -/
theorem exists_run_to_end (hLimit : 0 < host.concurrencyLimit) {Inv : Execution → Prop}
    (hKeeps : ∀ s e t, Inv s → restrict (Execution.Step host registry pipeline) Ok s e t → Inv t)
    (hAnswers : ∀ s, Inv s → Answers host pipeline Ok s) (hInv : Inv s) :
    ∃ events t, Run (restrict (Execution.Step host registry pipeline) Ok) s events t ∧ t.main = .ended := by
  have hLast : ∃ events t, Run (restrict (Execution.Step host registry pipeline) Ok) s events t ∧
      ¬ ∃ e u, restrict (Execution.Step host registry pipeline) Ok t e u := exists_run_stuck s
  obtain ⟨events, t, hRun, hStuck⟩ := hLast
  refine ⟨events, t, hRun, ?_⟩
  by_contra hEnded
  exact hStuck ((hAnswers t (hRun.invariant hKeeps hInv)).exists_step hLimit hEnded)

end
end Forge.Engine
