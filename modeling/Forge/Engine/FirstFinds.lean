import Forge.Engine.CooperatedRuns
import Forge.Engine.RecordsRun

/-! # Runs in which one job finds all files

A job looks up each artifact once. So where no other job ever finds a file, every request is the first for
its coordinate and nothing is rejected.
-/
namespace Forge.Engine
open Forge.Python Forge.Registry Forge.Theory
set_option autoImplicit false

variable {host : Host} {registry : RegistryClient} {pipeline : PipelineConfig}
  {producer : PipelineArtifact → String} {s t : Execution} {e : Event}

/-! ## The walk of the job that finds the files -/

/-- What the job `p` has found and has yet to look up are different coordinates, and nothing else has been
found. -/
structure OnlyFinds (p : String) (s : Execution) : Prop where
  before : p ∉ s.history.results.keys → s.history.found = []
  found : s.history.found.Nodup
  ahead : ∀ worker, s.futures.get? p = some worker → ∀ rest, worker.remaining = some rest →
    p ∈ s.history.results.keys ∧ (s.history.found ++ rest.map PipelineArtifact.coordinate).Nodup

theorem Works.found_eq {lockfile : Option Lockfile} {job : String} {worker worker' : Worker} {action : Action}
    (h : Works host pipeline lockfile job worker action worker') (history : History)
    (hNone : ∀ data, action ≠ .lookup (some data)) :
    (history.record job worker action).found = history.found := by
  cases h with
  | found artifact rest published data hHold => exact absurd rfl (hNone data)
  | handled artifact data rest published statusCode text =>
    simp only [History.record]
    split <;> rfl
  | raised worker message hActive => simp only [History.record]
  | _ => rfl

/-- A step of the job itself. -/
theorem OnlyFinds.worked {p : String} {worker worker' : Worker} {action : Action} (h : OnlyFinds p s)
    (hDistinct : (pipeline.artifacts.map PipelineArtifact.coordinate).Nodup)
    (hWorker : s.futures.get? p = some worker)
    (hRunning : worker = .running → p ∉ s.history.results.keys)
    (hWorks : Works host pipeline s.run.lockfile p worker action worker') :
    OnlyFinds p (s.worked p worker action worker') := by
  have hAhead := h.ahead worker hWorker
  have hKeys : s.history.results.keys ⊆ (s.history.record p worker action).results.keys :=
    s.history.record_results p worker action
  have hGet : ∀ other, (s.worked p worker action worker').futures.get? p = some other → other = worker' := by
    intro other hOther
    simpa [Execution.worked] using hOther.symm
  -- all but the exit and the lookup that finds a file leave what is found and what lies ahead
  have hSame : (∀ rest, worker'.remaining = some rest → ∃ more, worker.remaining = some (more ++ rest)) →
      (∀ data, action ≠ .lookup (some data)) → OnlyFinds p (s.worked p worker action worker') := by
    intro hRest hNone
    have hFound := hWorks.found_eq s.history hNone
    refine ⟨fun hNot => ?_, ?_, ?_⟩
    · rw [Execution.worked, hFound]
      exact h.before fun hOld => hNot (hKeys hOld)
    · rw [Execution.worked, hFound]
      exact h.found
    · intro other hOther rest hRemaining
      cases hGet other hOther
      obtain ⟨more, hMore⟩ := hRest rest hRemaining
      obtain ⟨hExited, hNodup⟩ := hAhead _ hMore
      rw [Execution.worked, hFound]
      refine ⟨hKeys hExited, hNodup.sublist ?_⟩
      rw [List.map_append]
      exact (List.sublist_append_right _ _).append_left _
  cases hWorks with
  | succeeded =>
    have hNone := h.before (hRunning rfl)
    refine ⟨fun _ => hNone, h.found, ?_⟩
    intro other hOther rest hRemaining
    cases hGet other hOther
    cases hRemaining
    refine ⟨Dict.mem_keys_set.mpr (.inl rfl), ?_⟩
    change (s.history.found ++ _).Nodup
    rw [hNone]
    exact hDistinct
  | found artifact rest published data hHold =>
    obtain ⟨hExited, hNodup⟩ := hAhead _ rfl
    rw [List.map_cons, List.append_cons] at hNodup
    refine ⟨fun hNot => absurd hExited hNot, hNodup.of_append_left, ?_⟩
    intro other hOther rest' hRemaining
    cases hGet other hOther
    cases hRemaining
    exact ⟨hExited, hNodup⟩
  | absent artifact rest published =>
    exact hSame (fun rest' hRest => by cases hRest; exact ⟨[artifact], rfl⟩) (by simp)
  | handled artifact data rest published statusCode text =>
    exact hSame (fun rest' hRest => ⟨[], hRest⟩) (by simp)
  | created artifact data statusCode text rest published hStatus =>
    exact hSame (fun rest' hRest => ⟨[], hRest⟩) (by simp)
  | finished published => exact hSame (fun rest' hRest => ⟨[], hRest⟩) (by simp)
  | failed exitCode hExit =>
    refine hSame (fun rest' hRest => ?_) (by simp)
    simp only [Worker.remaining, hExit, if_false] at hRest
    cases hRest
  | _ => exact hSame (fun rest' hRest => by cases hRest) (by simp)

theorem OnlyFinds.moves {p : String} (h : OnlyFinds p s)
    (hDistinct : (pipeline.artifacts.map PipelineArtifact.coordinate).Nodup)
    (hRunning : s.futures.get? p = some .running → p ∉ s.history.results.keys)
    (hMove : Moves host registry pipeline s e t)
    (hOnly : ∀ job data, e = .work job (.lookup (some data)) → job = p) : OnlyFinds p t := by
  cases hMove.poolStep with
  | worked job worker worker' action hWorker hWorks =>
    by_cases hSame : job = p
    · subst hSame
      exact h.worked hDistinct hWorker (fun hHere => hRunning (hHere ▸ hWorker)) hWorks
    · have hFound : (s.worked job worker action worker').history.found = s.history.found :=
        hWorks.found_eq s.history fun data hAction => hSame (hOnly job data (by rw [hAction]))
      refine ⟨fun hNot => ?_, by rw [hFound]; exact h.found, fun worker₁ hGet rest hRest => ?_⟩
      · rw [hFound]
        exact h.before fun hOld => hNot (s.history.record_results job worker action hOld)
      · rw [Execution.worked, Dict.get?_set, if_neg (Ne.symm hSame)] at hGet
        obtain ⟨hExited, hNodup⟩ := h.ahead worker₁ hGet rest hRest
        rw [hFound]
        exact ⟨s.history.record_results job worker action hExited, hNodup⟩
  | main e t hHistory hPool hEvent =>
    have hAhead := hMove.workers (P := fun job worker => job = p → ∀ rest, worker.remaining = some rest →
        p ∈ s.history.results.keys ∧ (s.history.found ++ rest.map PipelineArtifact.coordinate).Nodup)
      (fun job worker hGet hSame => h.ahead worker (hSame ▸ hGet))
      (fun job hJob hSame rest hRest => by cases hRest)
      (fun job worker action worker' hWorker hWork hWorks => absurd hWork (hEvent job action))
    refine ⟨by rw [hHistory]; exact h.before, by rw [hHistory]; exact h.found, fun worker hGet => ?_⟩
    rw [hHistory]
    exact hAhead p worker hGet rfl

/-! ## Which jobs are over -/

variable {g : JobGraph} {plan : List (List String)} {scheduler : DAGScheduler} {events : List Event}

section
variable {Ok : Execution → Event → Prop} {p : String}

end
end Forge.Engine
