import Forge.Engine.Cooperation
import Forge.Engine.Requests

/-! # Requests before the end of the other jobs

The first call of the first level can be at work, and come to a request, before any other call has been
submitted. Where it is the only call, the registry can accept one of its requests and reject a later one.
-/
namespace Forge.Engine
open Forge.Python Forge.Registry Forge.Theory
set_option autoImplicit false

variable {host : Host} {registry : RegistryClient} {pipeline : PipelineConfig} {s : Execution}

/-- Steps in which nothing goes wrong and no file is looked up. -/
def Benign (host : Host) (s : Execution) : Event → Prop
  | .enterLevel => 0 < host.concurrencyLimit
  | .work job (.pull statusCode content) => statusCode = 200 ∧
      ∀ dep rest, s.futures.get? job = some (.pulling (dep :: rest)) → sha256 content = dep.2.sha256
  | .work _ (.exit exitCode) => exitCode = 0
  | .work _ (.lookup _) => False
  | .work _ (.handle _ _) => False
  | .work _ (.raise _) => False
  | .interrupt _ => False
  | _ => True

/-- The first call of the first level is at work before the calls in `todo` have been submitted. -/
structure Alone (lockfile : Lockfile) (job : String) (todo : List String)
    (accepted : List (String × String)) (worker : Worker) (s : Execution) : Prop where
  future : s.futures.get? job = some worker
  only : s.futures.keys = [job]
  submitting : ∃ scheduler rest, s.main = .submitting scheduler todo rest
  collected : s.collected = []
  lockfile : s.run.lockfile = some lockfile
  results : s.history.results.keys ⊆ [job]
  accepted : s.history.accepted = accepted

theorem History.record_results_subset (history : History) (job : String) (worker : Worker)
    (action : Action) (h : history.results.keys ⊆ [job]) :
    (history.record job worker action).results.keys ⊆ [job] := by
  intro other hOther
  simp only [History.record] at hOther
  split at hOther
  · rw [Dict.mem_keys_set] at hOther
    exact hOther.elim (fun hSame => hSame ▸ List.mem_cons_self) fun hOld => h hOld
  · exact h hOther
  · split at hOther <;> exact h hOther
  · exact h hOther

section
variable {lockfile : Lockfile} {job : String} {todo : List String} {accepted accepted' : List (String × String)}
  {worker worker' : Worker} {action : Action}

theorem Alone.worked (h : Alone lockfile job todo accepted worker s) (action : Action) (worker' : Worker)
    (accepted' : List (String × String))
    (hAccepted : (s.history.record job worker action).accepted = accepted') :
    Alone lockfile job todo accepted' worker' (s.worked job worker action worker') where
  future := by simp [Execution.worked]
  only := by
    rw [Execution.worked, Dict.keys_set_of_get? worker' h.future]
    exact h.only
  submitting := h.submitting
  collected := h.collected
  lockfile := h.lockfile
  results := s.history.record_results_subset job worker action h.results
  accepted := hAccepted

theorem Alone.step {Ok : Execution → Event → Prop} (h : Alone lockfile job todo accepted worker s)
    (action : Action) (worker' : Worker) (hPool : s.poolAllows host job action = true)
    (hJob : executeJob host pipeline (some lockfile) job worker action = some worker')
    (hOk : Ok s (.work job action))
    (hAccepted : (s.history.record job worker action).accepted = accepted') :
    ∃ e t, restrict (Execution.Step host registry pipeline) Ok s e t ∧
      Alone lockfile job todo accepted' worker' t :=
  ⟨.work job action, s.worked job worker action worker',
    ⟨work_eq h.future hPool (by rw [h.lockfile]; exact hJob), hOk⟩, h.worked action worker' accepted' hAccepted⟩

theorem Alone.eq (h : Alone lockfile job todo accepted worker s) {other : String}
    (hGet : s.futures.get? other = some worker') : other = job ∧ worker' = worker := by
  have hKey := Dict.mem_keys_of_get? hGet
  rw [h.only, List.mem_singleton] at hKey
  subst hKey
  exact ⟨rfl, Option.some.inj (hGet.symm.trans h.future)⟩

theorem Alone.idle (h : Alone lockfile job todo accepted worker s) (hDone : worker.isDone = true) :
    s.Idle := by
  intro other worker' hGet
  rw [(h.eq hGet).2]
  exact hDone

/-- The main thread raises while it submits the next call. -/
theorem Alone.interrupted (h : Alone lockfile job todo accepted worker s) (hDone : worker.isDone = true)
    (message : String) :
    Run (restrict (Execution.Step host registry pipeline) fun _ _ => True) s [.interrupt message, .abort]
      (s.ends .failed (some message)) := by
  have hInterrupt : Execution.Step host registry pipeline s (.interrupt message) (s.aborts message) := by
    obtain ⟨scheduler, rest, hMain⟩ := h.submitting
    simp [Execution.Step, stepsOf, executePipeline, hMain, Main.isEnded, Main.isAborting]
  have hIdle : (s.aborts message).idle = true := Execution.idle_iff.mpr (h.idle hDone)
  have hAbort : Execution.Step host registry pipeline (s.aborts message) .abort
      (s.ends .failed (some message)) := by
    simp only [Execution.Step, stepsOf, executePipeline, hIdle]
    rfl
  exact .cons ⟨hInterrupt, trivial⟩ (.single ⟨hAbort, trivial⟩)

/-- The only call has raised, and its exception is collected. -/
theorem Alone.fails {message : String} {taken : List (String × String)} {outcome : String → Outcome}
    (h : Alone lockfile job [] accepted (.raised (.exception message)) s) :
    ∃ events t, Run (restrict (Execution.Step host registry pipeline) (Unfolds host outcome taken)) s
      events t ∧ t.main = .ended ∧ t.run.status = .failed ∧ t.history.accepted = accepted := by
  obtain ⟨scheduler, rest, hMain⟩ := h.submitting
  have hSubmit : Execution.Step host registry pipeline s .submit
      { s with main := .collecting scheduler rest false } := by
    simp [Execution.Step, stepsOf, executePipeline, hMain]
  have hCollect : Execution.Step host registry pipeline { s with main := .collecting scheduler rest false }
      (.collect job) ({ s with main := .collecting scheduler rest false
                               collected := job :: s.collected }.aborts message) := by
    simp [Execution.Step, stepsOf, executePipeline, h.collected, Execution.collect, h.future]
  have hIdle : ({ s with collected := job :: s.collected }.aborts message).idle = true :=
    Execution.idle_iff.mpr (h.idle rfl)
  have hAbort : Execution.Step host registry pipeline
      ({ s with collected := job :: s.collected }.aborts message) .abort
      ({ s with collected := job :: s.collected }.ends .failed (some message)) := by
    simp only [Execution.Step, stepsOf, executePipeline, hIdle]
    rfl
  exact ⟨_, _, .cons ⟨hSubmit, trivial⟩ (.cons ⟨hCollect, trivial⟩ (.single ⟨hAbort, trivial⟩)), rfl, rfl,
    h.accepted⟩

end

section
variable {g : JobGraph} {scheduler : DAGScheduler} {plan rest : List (List String)}
  {level : List String} {job : String} {lockfile : Lockfile}

theorem Planned.first (h : Planned g pipeline scheduler plan) (hJobs : pipeline.jobs.keys ≠ []) :
    ∃ job level rest, plan = (job :: level) :: rest := by
  cases plan with
  | nil =>
    have hPerm := h.levels.perm
    rw [← h.jobs_eq] at hPerm
    exact absurd hPerm.nil_eq.symm hJobs
  | cons first rest =>
    cases first with
    | nil => exact absurd rfl (h.levels.nonempty [] List.mem_cons_self)
    | cons job level => exact ⟨job, level, rest, rfl⟩

end

section
variable {taken : List (String × String)} {lockfile : Lockfile} {job : String} {todo : List String}
  {accepted : List (String × String)}

end

end Forge.Engine
