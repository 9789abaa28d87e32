import Forge.Engine.CooperatedRuns
import Forge.Engine.EarlyRequests

/-! # Runs in which two jobs find one file

Once the registry has accepted an artifact, a job that has its walk before it sends a second request. So a
pipeline in which some job can walk after another has published does not always end as it should.
-/
namespace Forge.Engine
open Forge.Python Forge.Registry Forge.Theory
set_option autoImplicit false

variable {host : Host} {registry : RegistryClient} {pipeline : PipelineConfig}
  {producer : PipelineArtifact → String} {s t : Execution} {e : Event}

/-! ## A walk that meets a published artifact -/

/-- The artifact lies in the part of the walk that the job has before it. -/
def Worker.Ahead (a : PipelineArtifact) : Worker → Prop
  | .walking artifacts _ => a ∈ artifacts
  | .posting artifact _ artifacts _ => a = artifact ∨ a ∈ artifacts
  | .answered _ _ _ _ artifacts _ => a ∈ artifacts
  | .returned result _ => result.exitCode ≠ 0
  | _ => True

/-- The registry has accepted the artifact, and the job `q` has yet to look it up. -/
structure Owed (a : PipelineArtifact) (q : String) (s : Execution) : Prop where
  accepted : a.coordinate ∈ s.history.accepted
  ahead : ∀ worker, s.futures.get? q = some worker → worker.Ahead a
  entry : ∀ entry, s.run.jobs.get? q = some entry → entry.status ≠ .job .succeeded

/-- Lookups of the artifact find its file. -/
def Finds (a : PipelineArtifact) (s : Execution) (e : Event) : Prop :=
  ∀ job rest published, s.futures.get? job = some (.walking (a :: rest) published) →
    e ≠ .work job (.lookup none)

theorem Works.ahead {lockfile : Option Lockfile} {q : String} {worker worker' : Worker} {action : Action}
    {a : PipelineArtifact} {history : History} (h : Works host pipeline lockfile q worker action worker')
    (hArtifact : a ∈ pipeline.artifacts) (hAccepted : a.coordinate ∈ history.accepted)
    (hCooperates : ActionCooperates producer history (some worker) action)
    (hFinds : ∀ rest published, worker = .walking (a :: rest) published → action ≠ .lookup none)
    (hNone : (history.record q worker action).rejected = []) (hAhead : worker.Ahead a) :
    worker'.Ahead a := by
  cases h with
  | succeeded => exact hArtifact
  | failed exitCode hExit => exact hExit
  | absent artifact rest published =>
    rcases List.mem_cons.mp hAhead with rfl | hRest
    · exact absurd rfl (hFinds rest published rfl)
    · exact hRest
  | found artifact rest published data hHold => exact List.mem_cons.mp hAhead
  | handled artifact data rest published statusCode text =>
    rcases hAhead with rfl | hRest
    · -- the second request for the artifact
      have hStatus := hCooperates a data rest published rfl
      rw [if_pos (List.contains_iff_mem.mpr hAccepted)] at hStatus
      simp [History.record, hStatus, Created] at hNone
    · exact hRest
  | created artifact data statusCode text rest published hStatus => exact hAhead
  | finished published => exact absurd hAhead List.not_mem_nil
  | _ => trivial

theorem History.record_accepted (history : History) (job : String) (worker : Worker) (action : Action) :
    history.accepted ⊆ (history.record job worker action).accepted := by
  intro c hc
  simp only [History.record]
  split
  · exact hc
  · exact hc
  · split
    · exact List.mem_append_left _ hc
    · exact hc
  · exact hc

theorem Owed.moves {a : PipelineArtifact} {q : String} (h : Owed a q s)
    (hArtifact : a ∈ pipeline.artifacts) (hMove : Moves host registry pipeline s e t)
    (hCooperates : Cooperates host producer s e) (hFinds : Finds a s e)
    (hNone : t.history.rejected = []) : Owed a q t where
  accepted := by
    cases hMove.poolStep with
    | worked job worker worker' action hWorker hWorks =>
      exact s.history.record_accepted job worker action h.accepted
    | main e t hHistory hPool hEvent =>
      rw [hHistory]
      exact h.accepted
  ahead := by
    have hAll := hMove.workers (P := fun job worker => job = q → worker.Ahead a)
      (fun job worker hGet hSame => h.ahead worker (hSame ▸ hGet)) (fun job hJob hSame => trivial)
    refine fun worker hGet => hAll ?_ q worker hGet rfl
    rintro job worker action worker' hWorker rfl hWorks rfl
    cases hMove.poolStep with
    | worked _ worker₁ worker₁' _ hWorker₁ hWorks₁ =>
      cases hWorker.symm.trans hWorker₁
      rw [Cooperates, hWorker] at hCooperates
      refine hWorks.ahead hArtifact h.accepted hCooperates ?_ hNone (h.ahead worker hWorker)
      rintro rest published rfl rfl
      exact hFinds job rest published hWorker rfl
    | main _ _ hHistory hPool hEvent => exact absurd rfl (hEvent job action)
  entry entry hGet hStatus := by
    rcases hMove.succeeded_entry hGet hStatus with hOld | ⟨published, hWorker⟩
    · exact h.entry entry hOld hStatus
    · exact h.ahead _ hWorker rfl

section
variable {Ok : Execution → Event → Prop} {g : JobGraph} {scheduler : DAGScheduler}
  {plan : List (List String)} {lockfile : Lockfile} {events : List Event}

/-- Where all runs end as they should, nothing is ever rejected. -/
theorem Serves.unrejected (hServes : Serves host producer Ok) (hKnown : NeedsKnown pipeline.jobs)
    (hCan : CanComplete host registry pipeline) (hAlways : AlwaysPublishesOnce host registry pipeline Ok)
    (hRun : Run (restrict (Execution.Step host registry pipeline) Ok) .initial events s) :
    s.history.rejected = [] := by
  obtain ⟨events', t, hRest, hEnded⟩ := hServes.ends hKnown hCan hRun
  have hAll := hRun.append hRest
  have hNone : t.history.rejected = [] := by
    by_contra hSome
    have hDoomed := (hServes.run hKnown hAll).doomed hSome
    rw [Doomed, hEnded] at hDoomed
    exact hDoomed (hAlways _ t hAll hEnded).1
  have hBack : t.history.rejected = [] → s.history.rejected = [] := by
    refine hRest.of_restrict.relates (fun _ h => h) ?_ fun _ _ _ hStep => hStep.moves.unrejected
    exact fun _ _ _ h h' hNone => h (h' hNone)
  exact hBack hNone

/-- At the end of a run without rejected requests every job has succeeded. -/
theorem Serves.succeeded_entry (hServes : Serves host producer Ok) (hKnown : NeedsKnown pipeline.jobs)
    (hPlanned : Planned g pipeline scheduler plan) (hResolves : Resolves registry pipeline lockfile)
    (hRun : Run (restrict (Execution.Step host registry pipeline) Ok) .initial events s)
    (hNone : s.history.rejected = []) (hEnded : s.main = .ended) {job : String}
    (hJob : job ∈ pipeline.jobs.keys) : ∃ entry, s.run.jobs.get? job = some entry ∧
      entry.status = .job .succeeded ∧ job ∈ s.history.results.keys := by
  have hPhase := (hServes.run_inv hPlanned hResolves hRun hNone).phase
  rw [Phase, hEnded] at hPhase
  have hAll := hPhase.succeeded_iff_all.mp hPhase.succeeded_of_allPass job (hPlanned.jobs_eq ▸ hJob)
  obtain ⟨entry, hGet, hStatus⟩ := Option.map_eq_some_iff.mp hAll
  exact ⟨entry, hGet, hStatus, ((hServes.run hKnown hRun).recorded job entry hGet hStatus).1⟩

end

/-! ## Files that may be there at any time -/

theorem AlwaysPublishesOnce.mono {Ok Ok' : Execution → Event → Prop}
    (h : AlwaysPublishesOnce host registry pipeline Ok) (hOk : ∀ s e, Ok' s e → Ok s e) :
    AlwaysPublishesOnce host registry pipeline Ok' :=
  fun events s hRun => h events s (hRun.mono fun s e _ hStep => hStep.imp_right (hOk s e))

theorem Benign.cooperates (h : Benign host s e) : Cooperates host producer s e := by
  cases e with
  | work job action =>
    cases action with
    | lookup file => exact h.elim
    | handle statusCode text => exact h.elim
    | _ => exact h
  | _ => exact h

section
variable {g : JobGraph} {scheduler : DAGScheduler} {plan : List (List String)} {p q : String}

end
end Forge.Engine
