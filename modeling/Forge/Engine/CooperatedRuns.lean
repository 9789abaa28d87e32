import Forge.Engine.ArtifactWalks

/-! # Cooperative runs

What holds in every run of a cooperative world, as long as no request is rejected and at the end of the
run.
-/
namespace Forge.Engine
open Forge.Python Forge.Registry Forge.Theory
set_option autoImplicit false

variable {host : Host} {registry : RegistryClient} {pipeline : PipelineConfig}
  {producer : PipelineArtifact → String} {s t : Execution} {e : Event}

/-! ## The invariant of a cooperative run -/

structure Cooperated (registry : RegistryClient) (pipeline : PipelineConfig)
    (producer : PipelineArtifact → String) (s : Execution) : Prop extends Sound registry pipeline s where
  accounted : ∀ c, Accounted c s
  acceptedOnce : s.history.accepted.Nodup
  rejected : s.history.rejected ⊆ s.history.accepted
  doomed : s.history.rejected ≠ [] → Doomed s
  walks : ∀ job worker, s.futures.get? job = some worker → Walks pipeline producer s.history job worker
  recorded : Recorded pipeline producer s

theorem cooperated_initial : Cooperated registry pipeline producer .initial where
  toSound := sound_initial
  accounted c := rfl
  acceptedOnce := List.nodup_nil
  rejected := List.nil_subset _
  doomed h := absurd rfl h
  walks job worker h := by cases h
  recorded job entry h := by cases h

/-- The registry rejects what it has accepted before, and nothing else. -/
theorem Works.answers {lockfile : Option Lockfile} {job : String} {worker worker' : Worker}
    {action : Action} {history : History}
    (h : Works host pipeline lockfile job worker action worker')
    (hCooperates : ActionCooperates producer history (some worker) action)
    (hOnce : history.accepted.Nodup) (hRejected : history.rejected ⊆ history.accepted) :
    (history.record job worker action).accepted.Nodup ∧
      (history.record job worker action).rejected ⊆ (history.record job worker action).accepted := by
  cases h with
  | handled artifact data rest published statusCode text =>
    have hStatus := hCooperates artifact data rest published rfl
    simp only [List.contains_eq_mem, decide_eq_true_eq] at hStatus
    by_cases hOld : artifact.coordinate ∈ history.accepted
    · rw [if_pos hOld] at hStatus
      simp only [History.record, hStatus, show ¬ Created 409 by decide, if_false]
      refine ⟨hOnce, List.append_subset.mpr ⟨hRejected, ?_⟩⟩
      exact List.cons_subset.mpr ⟨hOld, List.nil_subset _⟩
    · rw [if_neg hOld] at hStatus
      simp only [History.record, hStatus, show Created 201 by decide, if_true]
      refine ⟨List.nodup_append.mpr ⟨hOnce, List.nodup_singleton _, ?_⟩,
        fun c hc => List.mem_append_left _ (hRejected hc)⟩
      rintro c hc c' hc' rfl
      exact hOld (List.mem_singleton.mp hc' ▸ hc)
  | raised worker message hActive => exact hCooperates.elim
  | _ => exact ⟨hOnce, hRejected⟩

theorem Cooperated.answers (h : Cooperated registry pipeline producer s)
    (hMove : Moves host registry pipeline s e t) (hCooperates : Cooperates host producer s e) :
    t.history.accepted.Nodup ∧ t.history.rejected ⊆ t.history.accepted := by
  cases hMove.poolStep with
  | worked job worker worker' action hWorker hWorks =>
    rw [Cooperates, hWorker] at hCooperates
    exact hWorks.answers hCooperates h.acceptedOnce h.rejected
  | main e t hHistory hPool hEvent =>
    rw [hHistory]
    exact ⟨h.acceptedOnce, h.rejected⟩

theorem Cooperated.moves (hKnown : NeedsKnown pipeline.jobs) (h : Cooperated registry pipeline producer s)
    (hMove : Moves host registry pipeline s e t) (hCooperates : Cooperates host producer s e) :
    Cooperated registry pipeline producer t where
  toSound := h.toSound.moves hKnown hMove
  accounted c := hMove.poolStep.accounted h.pool hCooperates.quiet (h.accounted c)
  acceptedOnce := (h.answers hMove hCooperates).1
  rejected := (h.answers hMove hCooperates).2
  doomed := hMove.doomed_of_rejected h.pool h.doomed
  walks := by
    apply hMove.workers (P := Walks pipeline producer t.history)
    · intro job worker hWorker
      cases hMove.poolStep with
      | worked other worker₁ worker' action hOther hWorks =>
        exact (h.walks job worker hWorker).record other worker₁ action
      | main e t hHistory hPool hEvent =>
        rw [hHistory]
        exact h.walks job worker hWorker
    · intro job hJob rest hRest
      cases hRest
    · rintro job worker action worker' hWorker rfl hWorks
      rw [Cooperates, hWorker] at hCooperates
      have hWalks := hWorks.walks hCooperates (h.walks job worker hWorker)
      cases hMove with
      | worked _ other worker₁ _ hOther hPool hWorks' =>
        cases hWorker.symm.trans hOther
        exact hWalks
  recorded := h.recorded.moves h.walks hMove

section
variable {Ok : Execution → Event → Prop}

theorem Serves.moves (hServes : Serves host producer Ok) (hKnown : NeedsKnown pipeline.jobs)
    (h : Cooperated registry pipeline producer s)
    (hStep : restrict (Execution.Step host registry pipeline) Ok s e t) :
    Cooperated registry pipeline producer t :=
  h.moves hKnown hStep.1.moves (hServes.cooperates s e hStep.2)

theorem Serves.run {events : List Event} (hServes : Serves host producer Ok)
    (hKnown : NeedsKnown pipeline.jobs)
    (hRun : Run (restrict (Execution.Step host registry pipeline) Ok) .initial events s) :
    Cooperated registry pipeline producer s :=
  hRun.invariant (fun _ _ _ h hStep => hServes.moves hKnown h hStep) cooperated_initial

/-- Every cooperative run can be continued to its end. -/
theorem Serves.ends {events : List Event} (hServes : Serves host producer Ok)
    (hKnown : NeedsKnown pipeline.jobs) (hCan : CanComplete host registry pipeline)
    (hRun : Run (restrict (Execution.Step host registry pipeline) Ok) .initial events s) :
    ∃ events' t, Run (restrict (Execution.Step host registry pipeline) Ok) s events' t ∧ t.main = .ended :=
  exists_run_to_end hCan.limit (fun _ _ _ hInv hStep => hServes.moves hKnown hInv hStep)
    (fun _ hInv => hServes.answers hInv.within hCan) (hServes.run hKnown hRun)

end

/-! ## Runs in which nothing is rejected -/

theorem Cooperates.agrees (h : Cooperates host producer s e) (hMove : Moves host registry pipeline s e t)
    (hNone : t.history.rejected = []) : Agrees host allPass s e := by
  cases e with
  | work job action =>
    cases action with
    | pull statusCode content =>
      exact ⟨h.1, fun dep rest hHere hMismatch => absurd (h.2 dep rest hHere) hMismatch⟩
    | exit exitCode =>
      have hExit : exitCode = 0 := h
      rw [hExit]
      rfl
    | handle statusCode text => exact hMove.created_of_unrejected hNone
    | raise message => exact h.elim
    | _ => trivial
  | interrupt message => exact h.elim
  | enterLevel => exact h
  | _ => trivial

/-- The registry rejects nothing as long as no two lookups find the file of one artifact. -/
theorem Cooperated.unrejected (h : Cooperated registry pipeline producer s)
    (hOnce : s.history.found.Nodup) : s.history.rejected = [] := by
  rw [List.eq_nil_iff_forall_not_mem]
  intro c hRejected
  have hPositive := List.count_pos_iff.mpr hRejected
  have hAccepted := List.count_pos_iff.mpr (h.rejected hRejected)
  have hFound := List.nodup_iff_count_le_one.mp hOnce c
  have hAccounted := h.accounted c
  rw [Accounted] at hAccounted
  omega

theorem Serves.run_inv {Ok : Execution → Event → Prop} {g : JobGraph} {scheduler : DAGScheduler}
    {plan : List (List String)} {lockfile : Lockfile} {events : List Event}
    (hServes : Serves host producer Ok) (hPlanned : Planned g pipeline scheduler plan)
    (hResolves : Resolves registry pipeline lockfile)
    (hRun : Run (restrict (Execution.Step host registry pipeline) Ok) .initial events s)
    (hNone : s.history.rejected = []) : RunInv g allPass plan s := by
  refine run_inv_of_unrejected hPlanned hResolves (fun s e t hMove hOk hNone => ?_) hRun hNone
  exact (hServes.cooperates s e hOk).agrees hMove hNone

/-- The run succeeded, and the registry accepted each declared artifact exactly once. -/
def PublishedOnce (pipeline : PipelineConfig) (s : Execution) : Prop :=
  s.run.status = .succeeded ∧
    ∀ artifact ∈ pipeline.artifacts, s.history.accepted.count artifact.coordinate = 1

/-- Every run to its end whose steps meet `Ok` ends as it should. -/
def AlwaysPublishesOnce (host : Host) (registry : RegistryClient) (pipeline : PipelineConfig)
    (Ok : Execution → Event → Prop) : Prop :=
  ∀ events s, Run (restrict (Execution.Step host registry pipeline) Ok) .initial events s →
    s.main = .ended → PublishedOnce pipeline s

theorem Result.succeeded_of_allPass {g : JobGraph} {run : RunState} (h : Result g allPass run) :
    run.status = .succeeded := by
  rw [h.succeeded]
  constructor
  · rintro ⟨job, -, hBad⟩
    cases hBad
  · rintro ⟨job, -, exitCode, hExit, hFails⟩
    cases hFails
    exact hExit rfl

end Forge.Engine
