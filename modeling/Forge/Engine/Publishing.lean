import Forge.Engine.Pool
import Forge.Engine.RunResult

/-! # Publishing

Every job that succeeds walks over the artifacts of the whole pipeline, in a workspace that it shares with
the others. What holds of the files found, and of the requests accepted and rejected, in every run.
-/
namespace Forge.Engine
open Forge.Python Forge.Registry Forge.Theory
set_option autoImplicit false

variable {host : Host} {registry : RegistryClient} {pipeline : PipelineConfig} {s t : Execution}
  {e : Event}

/-! ## Every request is accounted for -/

def Worker.posts (c : String × String) : Worker → ℕ
  | .posting artifact _ _ _ => if artifact.coordinate = c then 1 else 0
  | _ => 0

/-- A file found is a request sent, which the registry accepts, rejects or has yet to handle. -/
def Accounted (c : String × String) (s : Execution) : Prop :=
  s.history.found.count c =
    s.history.accepted.count c + s.history.rejected.count c + s.futures.total (Worker.posts c)

theorem posts_of_isDone {worker : Worker} (h : worker.isDone = true) (c : String × String) :
    worker.posts c = 0 := by
  cases worker with
  | posting artifact data rest published => cases h
  | _ => rfl

theorem Execution.Idle.posts (h : s.Idle) (c : String × String) :
    s.futures.total (Worker.posts c) = 0 :=
  Dict.total_eq_zero _ fun job worker hGet => posts_of_isDone (h job worker hGet) c

theorem Works.posts {lockfile : Option Lockfile} {job : String} {worker worker' : Worker}
    {action : Action} (h : Works host pipeline lockfile job worker action worker')
    (hQuiet : ∀ message, action ≠ .raise message) (history : History) (c : String × String) :
    (history.record job worker action).found.count c + history.accepted.count c +
        history.rejected.count c + worker.posts c =
      history.found.count c + (history.record job worker action).accepted.count c +
        (history.record job worker action).rejected.count c + worker'.posts c := by
  cases h with
  | found artifact rest published data hHold =>
    simp only [History.record, Worker.posts, List.count_append, List.count_singleton, beq_iff_eq]
    omega
  | handled artifact data rest published statusCode text =>
    simp only [History.record, Worker.posts]
    split
    · simp only [List.count_append, List.count_singleton, beq_iff_eq]
      omega
    · simp only [List.count_append, List.count_singleton, beq_iff_eq]
      omega
  | raised worker message hActive => exact absurd rfl (hQuiet message)
  | _ => rfl

theorem PoolStep.accounted {c : String × String} (h : PoolStep host pipeline s e t) (hInv : PoolInv s)
    (hQuiet : ∀ job message, e ≠ .work job (.raise message)) (hAccounted : Accounted c s) :
    Accounted c t := by
  rw [Accounted] at hAccounted ⊢
  cases h with
  | worked job worker worker' action hWorker hWorks =>
    have hAction : ∀ message, action ≠ .raise message := by
      rintro message rfl
      exact hQuiet job message rfl
    have hPosts := hWorks.posts hAction s.history c
    have hTotal := Dict.total_set (Worker.posts c) worker' hWorker
    simp only [Execution.worked]
    omega
  | main e t hHistory hPool hEvent =>
    rw [hHistory]
    cases hPool with
    | same hFutures =>
      rw [hFutures]
      exact hAccounted
    | opened scheduler rest integrityFailed hMain hFutures =>
      rw [PoolInv, hMain] at hInv
      rw [hFutures, Dict.total_empty]
      rw [hInv.2.posts c] at hAccounted
      exact hAccounted
    | queued scheduler job todo rest hMain hJob hFutures =>
      rw [PoolInv, hMain] at hInv
      rw [hFutures, Dict.total_set_of_notMem _ _ (hInv.2.2.1 job List.mem_cons_self)]
      exact hAccounted

/-- What a run has found, it has found for good. -/
theorem PoolStep.found_subset (h : PoolStep host pipeline s e t) (c : String × String) :
    s.history.found.count c ≤ t.history.found.count c := by
  cases h with
  | worked job worker worker' action hWorker hWorks =>
    simp only [Execution.worked, History.record]
    split
    · exact le_rfl
    · rw [List.count_append]
      exact Nat.le_add_right _ _
    · split <;> exact le_rfl
    · exact le_rfl
  | main e t hHistory hPool hEvent => rw [hHistory]

/-! ## A rejected request brings the run down -/

/-- Whether the job is bound to raise, with its future not yet collected. -/
def Worker.Fails : Worker → Prop
  | .answered _ _ statusCode _ _ _ => ¬ Created statusCode
  | .raised (.exception _) => True
  | _ => False

def Execution.Failing (s : Execution) : Prop :=
  ∃ job worker, s.futures.get? job = some worker ∧ worker.Fails ∧ job ∉ s.collected

def Doomed (s : Execution) : Prop :=
  match s.main with
  | .submitting _ _ _ => s.Failing
  | .collecting _ _ _ => s.Failing
  | .aborting _ => True
  | .ended => s.run.status ≠ .succeeded
  | _ => False

theorem Works.fails {lockfile : Option Lockfile} {job : String} {worker worker' : Worker}
    {action : Action} (h : Works host pipeline lockfile job worker action worker')
    (hFails : worker.Fails) : worker'.Fails := by
  cases h with
  | created artifact data statusCode text rest published hStatus => exact (hFails hStatus).elim
  | rejected artifact data statusCode text rest published message hStatus => trivial
  | raised worker message hActive => trivial
  | _ => exact hFails.elim

theorem Execution.Failing.worked {job : String} {worker worker' : Worker} {action : Action}
    (h : s.Failing) (hWorker : s.futures.get? job = some worker)
    (hWorks : Works host pipeline s.run.lockfile job worker action worker') :
    (s.worked job worker action worker').Failing := by
  obtain ⟨other, failing, hGet, hFails, hFresh⟩ := h
  by_cases hSame : other = job
  · subst hSame
    cases hWorker.symm.trans hGet
    exact ⟨other, worker', by simp [Execution.worked], hWorks.fails hFails, hFresh⟩
  · exact ⟨other, failing, by simpa [Execution.worked, hSame] using hGet, hFails, hFresh⟩

theorem Doomed.worked {job : String} {worker worker' : Worker} {action : Action} (h : Doomed s)
    (hWorker : s.futures.get? job = some worker)
    (hWorks : Works host pipeline s.run.lockfile job worker action worker') :
    Doomed (s.worked job worker action worker') := by
  rw [Doomed] at h ⊢
  have hMain : (s.worked job worker action worker').main = s.main := rfl
  rw [hMain]
  cases hCase : s.main with
  | submitting scheduler todo rest =>
    rw [hCase] at h
    exact h.worked hWorker hWorks
  | collecting scheduler rest integrityFailed =>
    rw [hCase] at h
    exact h.worked hWorker hWorks
  | aborting error => trivial
  | ended =>
    rw [hCase] at h
    exact h
  | _ =>
    rw [hCase] at h
    exact h

/-- A worker only takes steps while its level is in the pool. -/
theorem Doomed.of_fails {job : String} {worker worker' : Worker} {action : Action} (hInv : PoolInv s)
    (hWorker : s.futures.get? job = some worker)
    (hNotDone : worker.isDone = false) (hFails : worker'.Fails) :
    Doomed (s.worked job worker action worker') := by
  have hAwaits := hInv.awaits hWorker hNotDone
  have hFailing : job ∉ s.collected → (s.worked job worker action worker').Failing :=
    fun hFresh => ⟨job, worker', by simp [Execution.worked], hFails, hFresh⟩
  simp only [Doomed]
  change match s.main with
    | .submitting _ _ _ => _
    | .collecting _ _ _ => _
    | .aborting _ => True
    | .ended => _
    | _ => False
  rw [Execution.Awaits] at hAwaits
  cases hCase : s.main with
  | submitting scheduler todo rest =>
    rw [hCase] at hAwaits
    exact hFailing hAwaits
  | collecting scheduler rest integrityFailed =>
    rw [hCase] at hAwaits
    exact hFailing hAwaits
  | aborting error => trivial
  | _ =>
    rw [hCase] at hAwaits
    exact hAwaits.elim

theorem StopsEarly.doomed (h : StopsEarly s t) : Doomed t := by
  cases h with
  | ends status error hStatus =>
    rcases hStatus with rfl | rfl
    · exact RunStatus.noConfusion
    · exact RunStatus.noConfusion
  | aborts error => trivial

theorem Execution.Failing.main_step {t : Execution} (h : s.Failing)
    (hFutures : ∀ job worker, s.futures.get? job = some worker → t.futures.get? job = some worker)
    (hCollected : t.collected = s.collected) : t.Failing := by
  obtain ⟨job, worker, hGet, hFails, hFresh⟩ := h
  exact ⟨job, worker, hFutures job worker hGet, hFails, by rw [hCollected]; exact hFresh⟩

theorem Collects.doomed {job : String} {worker : Worker} {scheduler : DAGScheduler}
    {rest : List (List String)} {integrityFailed : Bool} (hDoomed : Doomed s)
    (hMain : s.main = .collecting scheduler rest integrityFailed)
    (hWorker : s.futures.get? job = some worker) (hFine : ¬ worker.Fails)
    (h : Collects rest { s with collected := job :: s.collected } t) : Doomed t := by
  rw [Doomed, hMain] at hDoomed
  obtain ⟨other, failing, hGet, hFails, hFresh⟩ := hDoomed
  rcases h.main with ⟨scheduler', integrityFailed', hMain'⟩ | ⟨error, hMain'⟩
  · rw [Doomed, hMain']
    refine ⟨other, failing, by rw [h.futures]; exact hGet, hFails, ?_⟩
    rw [h.collected, List.mem_cons, not_or]
    refine ⟨?_, hFresh⟩
    rintro rfl
    cases hWorker.symm.trans hGet
    exact hFine hFails
  · rw [Doomed, hMain']
    trivial

theorem Moves.doomed (hInv : PoolInv s) (hDoomed : Doomed s)
    (h : Moves host registry pipeline s e t) : Doomed t := by
  cases h with
  | worked job worker worker' action hWorker hPool hWorks => exact hDoomed.worked hWorker hWorks
  | unresolved t hMain hNot hStops => exact hStops.doomed
  | unplanned t hMain hNot hStops => exact hStops.doomed
  | submittedSkipped scheduler job todo rest hMain hSkipped =>
    rw [Doomed, hMain] at hDoomed
    exact hDoomed
  | submitted scheduler job todo rest hMain hNot hJob =>
    rw [Doomed, hMain] at hDoomed
    rw [PoolInv, hMain] at hInv
    refine hDoomed.main_step ?_ rfl
    intro other worker hGet
    have hNe : other ≠ job := by
      rintro rfl
      exact hInv.2.2.1 other List.mem_cons_self (Dict.mem_keys_of_get? hGet)
    simpa [hNe] using hGet
  | submittedAll scheduler rest hMain =>
    rw [Doomed, hMain] at hDoomed
    exact hDoomed
  | collectedResult scheduler rest integrityFailed job result published hMain hFresh hWorker =>
    exact (collectResult_collects scheduler rest integrityFailed job result published).doomed hDoomed
      hMain hWorker id
  | collectedIntegrityError scheduler rest integrityFailed job name version expected actual hMain
      hFresh hWorker =>
    exact (collectIntegrityError_collects scheduler rest job).doomed hDoomed hMain hWorker id
  | closedPool scheduler rest integrityFailed hMain hAll =>
    rw [Doomed, hMain] at hDoomed
    obtain ⟨job, worker, hGet, -, hFresh⟩ := hDoomed
    exact (hFresh (hAll job (Dict.mem_keys_of_get? hGet))).elim
  | aborted error hMain hIdle => exact RunStatus.noConfusion
  | refusedPool scheduler level rest hMain hLimit => trivial
  | submittedUnknown scheduler job todo rest hMain hUnknown => trivial
  | collectedException scheduler rest integrityFailed job message hMain hFresh hWorker => trivial
  | interrupted message hEnded hAborting => trivial
  | resolved lockfile hMain hResolves =>
    rw [Doomed, hMain] at hDoomed
    exact hDoomed.elim
  | planned scheduler plan hMain hPlans =>
    rw [Doomed, hMain] at hDoomed
    exact hDoomed.elim
  | skippedLevel scheduler level rest hMain =>
    rw [Doomed, hMain] at hDoomed
    exact hDoomed.elim
  | openedPool scheduler level rest hMain hLimit =>
    rw [Doomed, hMain] at hDoomed
    exact hDoomed.elim
  | finished scheduler integrityFailed now hMain =>
    rw [Doomed, hMain] at hDoomed
    exact hDoomed.elim

theorem Moves.doomed_of_rejected (hInv : PoolInv s) (hDoomed : s.history.rejected ≠ [] → Doomed s)
    (h : Moves host registry pipeline s e t) (hRejected : t.history.rejected ≠ []) : Doomed t := by
  by_cases hOld : s.history.rejected = []
  · cases h.poolStep with
    | worked job worker worker' action hWorker hWorks =>
      cases hWorks with
      | handled artifact data rest published statusCode text =>
        refine Doomed.of_fails hInv hWorker rfl ?_
        intro hStatus
        simp only [Execution.worked, History.record, hStatus, if_true] at hRejected
        exact hRejected hOld
      | raised worker message hActive =>
        simp only [Execution.worked, History.record] at hRejected
        exact (hRejected hOld).elim
      | _ => exact (hRejected hOld).elim
    | main e t hHistory hPool hEvent =>
      rw [hHistory] at hRejected
      exact absurd hOld hRejected
  · exact h.doomed hInv (hDoomed hOld)

/-! ## Runs in which nothing is rejected -/

theorem History.record_rejected {history : History} {job : String} {worker : Worker} {action : Action}
    (h : (history.record job worker action).rejected = []) : history.rejected = [] := by
  simp only [History.record] at h
  split at h
  · exact h
  · exact h
  · split at h
    · exact h
    · exact (List.append_eq_nil_iff.mp h).1
  · exact h

theorem Moves.unrejected (h : Moves host registry pipeline s e t) (hNone : t.history.rejected = []) :
    s.history.rejected = [] := by
  cases h.poolStep with
  | worked job worker worker' action hWorker hWorks => exact History.record_rejected hNone
  | main e t hHistory hPool hEvent => rwa [← hHistory]

/-- A request that is not rejected is accepted. -/
theorem Moves.created_of_unrejected {job : String} {statusCode : Nat} {text : String}
    (h : Moves host registry pipeline s (.work job (.handle statusCode text)) t)
    (hNone : t.history.rejected = []) : Created statusCode := by
  cases h with
  | worked _ worker worker' action hWorker hPool hWorks =>
    cases hWorks with
    | handled artifact data rest published =>
      by_contra hNot
      simp [Execution.worked, History.record, hNot] at hNone

/-- A run agrees with the outcomes of its jobs as long as no request is rejected. -/
theorem run_inv_of_unrejected {g : JobGraph} {outcome : String → Outcome} {scheduler : DAGScheduler}
    {plan : List (List String)} {lockfile : Lockfile} {events : List Event}
    {Ok : Execution → Event → Prop} (hPlanned : Planned g pipeline scheduler plan)
    (hResolves : Resolves registry pipeline lockfile)
    (hOk : ∀ s e t, Moves host registry pipeline s e t → Ok s e → t.history.rejected = [] →
      Agrees host outcome s e)
    (hRun : Run (restrict (Execution.Step host registry pipeline) Ok) .initial events s)
    (hNone : s.history.rejected = []) : RunInv g outcome plan s := by
  have hKeeps := hRun.invariant fun s e t
      (h : s.history.rejected = [] → RunInv g outcome plan s) hStep hNone =>
    have hMove := hStep.1.moves
    (h (hMove.unrejected hNone)).moves hPlanned hResolves hMove (hOk s e t hMove hStep.2 hNone)
  exact hKeeps (fun _ => runInv_initial) hNone

end Forge.Engine
