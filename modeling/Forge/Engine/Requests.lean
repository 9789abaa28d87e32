import Forge.Engine.Publishing
import Forge.Engine.RecordsRun

/-! # Where publish requests come from

A request comes from a job that has exited 0. So pipelines of at most one job send their requests only
after all jobs, and pipelines that publish nothing send none. The only job of a pipeline publishes nothing
in a run that fails when the registry accepts all of its requests from the first that it accepts on.
-/
namespace Forge.Engine
open Forge.Python Forge.Registry Forge.Theory
set_option autoImplicit false

variable {host : Host} {registry : RegistryClient} {pipeline : PipelineConfig} {s t : Execution}
  {e : Event} {outcome : String → Outcome}

/-- No run gets to an artifact: the pipeline has none, or no run gets to a job. -/
def NeverPublishes (registry : RegistryClient) (pipeline : PipelineConfig) : Prop :=
  pipeline.jobs.keys = [] ∨ pipeline.artifacts = [] ∨
    (∀ lockfile, ¬ Resolves registry pipeline lockfile) ∨ ¬ Acyclic (Needs pipeline.jobs)

/-! ## Where requests come from -/

/-- The artifacts whose requests the registry has yet to handle. -/
def Worker.toPublish : Worker → List PipelineArtifact
  | .walking artifacts _ => artifacts
  | .posting artifact _ artifacts _ => artifact :: artifacts
  | .answered _ _ _ _ artifacts _ => artifacts
  | _ => []

theorem Works.toPublish {lockfile : Option Lockfile} {job : String} {worker worker' : Worker}
    {action : Action} (h : Works host pipeline lockfile job worker action worker')
    (hArtifacts : worker.toPublish ⊆ pipeline.artifacts) : worker'.toPublish ⊆ pipeline.artifacts := by
  cases h with
  | succeeded => exact List.Subset.refl _
  | absent artifact rest published => exact fun a ha => hArtifacts (List.mem_cons_of_mem artifact ha)
  | found artifact rest published data hHold => exact hArtifacts
  | handled artifact data rest published statusCode text =>
    exact fun a ha => hArtifacts (List.mem_cons_of_mem artifact ha)
  | created artifact data statusCode text rest published hStatus => exact hArtifacts
  | _ => exact List.nil_subset _

/-- A job that walks over the artifacts has exited 0. -/
def Exited (history : History) (job : String) (worker : Worker) : Prop :=
  worker.toPublish ≠ [] → history.results.get? job = some ⟨0⟩

theorem Works.exited {lockfile : Option Lockfile} {job : String} {worker worker' : Worker}
    {action : Action} {history : History}
    (h : Works host pipeline lockfile job worker action worker') (hExited : Exited history job worker) :
    Exited (history.record job worker action) job worker' := by
  intro hSome
  cases h with
  | succeeded => simp [History.record]
  | absent artifact rest published => exact hExited (List.cons_ne_nil artifact rest)
  | found artifact rest published data hHold => exact hExited (List.cons_ne_nil artifact rest)
  | handled artifact data rest published statusCode text =>
    have hBefore := hExited (List.cons_ne_nil artifact rest)
    simp only [History.record]
    split <;> exact hBefore
  | created artifact data statusCode text rest published hStatus => exact hExited hSome
  | _ => exact absurd rfl hSome

theorem Exited.record_other {history : History} {job other : String} {worker worker' : Worker}
    (h : Exited history job worker) (hOther : job ≠ other) (action : Action) :
    Exited (history.record other worker' action) job worker := by
  intro hSome
  have hBefore := h hSome
  simp only [History.record]
  split
  · rw [Dict.get?_set, if_neg hOther]
    exact hBefore
  · exact hBefore
  · split <;> exact hBefore
  · exact hBefore

/-- Requests come from jobs that have exited 0, and only once there is a lockfile and a plan. -/
structure Traced (registry : RegistryClient) (pipeline : PipelineConfig) (s : Execution) : Prop
    extends Sound registry pipeline s where
  prepares : ∀ job worker, s.futures.get? job = some worker → Prepares registry pipeline
  artifacts : ∀ job worker, s.futures.get? job = some worker → worker.toPublish ⊆ pipeline.artifacts
  exited : ∀ job worker, s.futures.get? job = some worker → Exited s.history job worker

theorem Moves.exited (hOld : ∀ job worker, s.futures.get? job = some worker → Exited s.history job worker)
    (h : Moves host registry pipeline s e t) :
    ∀ job worker, t.futures.get? job = some worker → Exited t.history job worker := by
  cases h.poolStep with
  | worked other worker₁ worker' action hOther hWorks =>
    intro job worker hGet
    rw [Execution.worked, Dict.get?_set] at hGet
    split at hGet
    · rename_i hSame
      cases hGet
      subst hSame
      exact hWorks.exited (hOld job worker₁ hOther)
    · rename_i hNe
      exact (hOld job worker hGet).record_other hNe action
  | main e t hHistory hPool hEvent =>
    rw [hHistory]
    apply h.workers hOld
    · intro job hJob hSome
      exact absurd rfl hSome
    · intro job worker action worker' hWorker hWork hWorks
      exact absurd hWork (hEvent job action)

theorem Traced.moves (hKnown : NeedsKnown pipeline.jobs) (h : Traced registry pipeline s)
    (hMove : Moves host registry pipeline s e t) : Traced registry pipeline t where
  toSound := h.toSound.moves hKnown hMove
  prepares := hMove.prepares h.prepared h.prepares
  artifacts := by
    apply hMove.workers h.artifacts (fun job _ => List.nil_subset _)
    exact fun job worker action worker' hWorker _ hWorks =>
      hWorks.toPublish (h.artifacts job worker hWorker)
  exited := hMove.exited h.exited

theorem Traced.not_neverPublishes {job : String} {worker : Worker} {artifact : PipelineArtifact}
    (hKnown : NeedsKnown pipeline.jobs) (h : Traced registry pipeline s)
    (hWorker : s.futures.get? job = some worker) (hArtifact : artifact ∈ worker.toPublish) :
    ¬ NeverPublishes registry pipeline := by
  obtain ⟨⟨lockfile, hResolves⟩, scheduler, plan, hPlans⟩ := h.prepares job worker hWorker
  have hJob := h.within.job job worker hWorker
  have hDeclared := h.artifacts job worker hWorker hArtifact
  rintro (hNone | hNone | hUnresolved | hCyclic)
  · rw [hNone] at hJob
    cases hJob
  · rw [hNone] at hDeclared
    cases hDeclared
  · exact hUnresolved lockfile hResolves
  · exact hCyclic (DAGScheduler.new_acyclic hKnown hPlans.1)

/-- The registry accepts requests of workers only. -/
theorem Moves.accepted (h : Moves host registry pipeline s e t) (hSome : t.history.accepted ≠ []) :
    s.history.accepted ≠ [] ∨ ∃ job artifact data rest published,
      s.futures.get? job = some (.posting artifact data rest published) := by
  cases h.poolStep with
  | worked job worker worker' action hWorker hWorks =>
    cases hWorks with
    | handled artifact data rest published statusCode text =>
      exact .inr ⟨job, artifact, data, rest, published, hWorker⟩
    | raised worker message hActive =>
      simp only [Execution.worked, History.record] at hSome
      exact .inl hSome
    | _ => exact .inl hSome
  | main e t hHistory hPool hEvent =>
    rw [hHistory] at hSome
    exact .inl hSome

/-- A lookup that finds a file is a step of a job that has exited 0. -/
theorem Traced.sends {job : String} {data : Bytes} (hKnown : NeedsKnown pipeline.jobs)
    (h : Traced registry pipeline s)
    (hMove : Moves host registry pipeline s (.work job (.lookup (some data))) t) :
    job ∈ pipeline.jobs.keys ∧ s.history.results.get? job = some ⟨0⟩ ∧
      ¬ NeverPublishes registry pipeline := by
  cases hMove with
  | worked _ worker worker' _ hWorker hPool hWorks =>
    cases hWorks with
    | found artifact rest published _ hHold =>
      exact ⟨h.within.job job _ hWorker, h.exited job _ hWorker (List.cons_ne_nil artifact rest),
        h.not_neverPublishes hKnown hWorker List.mem_cons_self⟩

/-- A job pulls and exits as its outcome says, and nothing raises. The registry rejects the coordinates in
`taken`, which were there before the run, and those that it has accepted, and no others. -/
def ActionUnfolds (outcome : Outcome) (taken : List (String × String)) (history : History)
    (worker : Option Worker) : Action → Prop
  | .handle statusCode _ => ∀ artifact data rest published,
      worker = some (.posting artifact data rest published) →
        statusCode = if (taken ++ history.accepted).contains artifact.coordinate then 409 else 201
  | action => ActionAgrees outcome worker action

def Unfolds (host : Host) (outcome : String → Outcome) (taken : List (String × String)) (s : Execution) :
    Event → Prop
  | .enterLevel => 0 < host.concurrencyLimit
  | .work job action => ActionUnfolds (outcome job) taken s.history (s.futures.get? job) action
  | .interrupt _ => False
  | _ => True

/-- From the first artifact that is not taken on, no coordinate is taken or declared before. -/
def AcceptedToTheEnd (taken : List (String × String)) (artifacts : List PipelineArtifact) : Prop :=
  artifacts.Pairwise fun a b => a.coordinate ∉ taken → b.coordinate ∉ taken ∧ b.coordinate ≠ a.coordinate

variable {taken : List (String × String)}

theorem Unfolds.agrees (hMove : Moves host registry pipeline s e t) (h : Unfolds host outcome taken s e)
    (hNone : t.history.rejected = []) : Agrees host outcome s e := by
  cases e with
  | work job action =>
    cases action with
    | handle statusCode text => exact hMove.created_of_unrejected hNone
    | _ => exact h
  | _ => exact h

/-! ## Pipelines of one job -/

theorem eq_of_length_le_one {α : Type} {l : List α} {a b : α} (hLength : l.length ≤ 1) (ha : a ∈ l)
    (hb : b ∈ l) : a = b := by
  match l, hLength with
  | [c], _ => rw [List.mem_singleton.mp ha, List.mem_singleton.mp hb]

/-- A walk that has `rest` ahead, and whose requests so far have been accepted. -/
def Unrefused (pipeline : PipelineConfig) (taken : List (String × String)) (history : History)
    (rest : List PipelineArtifact) : Prop :=
  history.rejected = [] ∧ ∃ handled, pipeline.artifacts = handled ++ rest ∧
    ∀ c ∈ history.accepted, c ∉ taken ∧ ∃ artifact ∈ handled, artifact.coordinate = c

/-- Where the only job is in its walk, and what the registry has answered it. -/
def Worker.WalksUnrefused (pipeline : PipelineConfig) (taken : List (String × String)) (history : History) :
    Worker → Prop
  | .queued => history.accepted = [] ∧ history.rejected = []
  | .pulling _ => history.accepted = [] ∧ history.rejected = []
  | .running => history.accepted = [] ∧ history.rejected = []
  | .walking rest _ => Unrefused pipeline taken history rest
  | .posting artifact _ rest _ => Unrefused pipeline taken history (artifact :: rest)
  | .answered _ _ statusCode _ rest _ => Created statusCode → Unrefused pipeline taken history rest
  | .returned _ _ => True
  | .raised _ => True

theorem Unrefused.skip {history : History} {artifact : PipelineArtifact} {rest : List PipelineArtifact}
    (h : Unrefused pipeline taken history (artifact :: rest)) : Unrefused pipeline taken history rest := by
  obtain ⟨hNone, handled, hSplit, hAccepted⟩ := h
  refine ⟨hNone, handled ++ [artifact], by simp [hSplit], fun c hc => ⟨(hAccepted c hc).1, ?_⟩⟩
  obtain ⟨other, hOther, hCoordinate⟩ := (hAccepted c hc).2
  exact ⟨other, List.mem_append_left _ hOther, hCoordinate⟩

theorem Unrefused.accept {history : History} {artifact : PipelineArtifact} {rest : List PipelineArtifact}
    (h : Unrefused pipeline taken history (artifact :: rest)) (hFree : artifact.coordinate ∉ taken) :
    Unrefused pipeline taken { history with accepted := history.accepted ++ [artifact.coordinate] } rest := by
  obtain ⟨hNone, handled, hSplit, hAccepted⟩ := h
  refine ⟨hNone, handled ++ [artifact], by simp [hSplit], fun c hc => ?_⟩
  cases List.mem_append.mp hc with
  | inl hOld =>
    obtain ⟨hc, other, hOther, hCoordinate⟩ := hAccepted c hOld
    exact ⟨hc, other, List.mem_append_left _ hOther, hCoordinate⟩
  | inr hNew =>
    cases List.mem_singleton.mp hNew
    exact ⟨hFree, artifact, by simp, rfl⟩

/-- After an accepted request the next artifact is free. -/
theorem Unrefused.free {history : History} {artifact : PipelineArtifact} {rest : List PipelineArtifact}
    (h : Unrefused pipeline taken history (artifact :: rest))
    (hOrder : AcceptedToTheEnd taken pipeline.artifacts) (hSome : history.accepted ≠ []) :
    artifact.coordinate ∉ taken ++ history.accepted := by
  obtain ⟨-, handled, hSplit, hAccepted⟩ := h
  rw [AcceptedToTheEnd, hSplit, List.pairwise_append] at hOrder
  have hFree : ∀ c ∈ history.accepted, artifact.coordinate ∉ taken ∧ artifact.coordinate ≠ c := by
    intro c hc
    obtain ⟨hNot, other, hOther, rfl⟩ := hAccepted c hc
    exact hOrder.2.2 other hOther artifact List.mem_cons_self hNot
  obtain ⟨c, hc⟩ := List.exists_mem_of_ne_nil _ hSome
  rw [List.mem_append, not_or]
  exact ⟨(hFree c hc).1, fun hOld => (hFree _ hOld).2 rfl⟩

theorem Works.unrefused {lockfile : Option Lockfile} {job : String} {worker worker' : Worker}
    {action : Action} {history : History} {o : Outcome}
    (h : Works host pipeline lockfile job worker action worker')
    (hOrder : AcceptedToTheEnd taken pipeline.artifacts)
    (hUnfolds : ActionUnfolds o taken history (some worker) action)
    (hWalk : worker.WalksUnrefused pipeline taken history)
    (hOne : history.accepted = [] ∨ history.rejected = []) :
    worker'.WalksUnrefused pipeline taken (history.record job worker action) ∧
      ((history.record job worker action).accepted = [] ∨ (history.record job worker action).rejected = []) := by
  cases h with
  | started => exact ⟨hWalk, hOne⟩
  | pulled dep rest content hSha => exact ⟨hWalk, hOne⟩
  | mismatched dep rest content hSha => exact ⟨trivial, hOne⟩
  | refused dep rest statusCode content message hStatus => exact ⟨trivial, hOne⟩
  | launched hRun => exact ⟨hWalk, hOne⟩
  | succeeded =>
    refine ⟨⟨hWalk.2, [], rfl, fun c hc => ?_⟩, hOne⟩
    rw [show (history.record job .running (.exit 0)).accepted = [] from hWalk.1] at hc
    cases hc
  | failed exitCode hExit => exact ⟨trivial, hOne⟩
  | absent artifact rest published => exact ⟨hWalk.skip, hOne⟩
  | found artifact rest published data hHold => exact ⟨hWalk, hOne⟩
  | handled artifact data rest published statusCode text =>
    have hStatus := hUnfolds artifact data rest published rfl
    simp only [History.record]
    by_cases hTaken : artifact.coordinate ∈ taken ++ history.accepted
    · rw [if_pos (List.contains_iff_mem.mpr hTaken)] at hStatus
      have hNot : ¬ Created statusCode := by
        rw [hStatus]
        decide
      have hNone : history.accepted = [] := by
        by_contra hSome
        exact Unrefused.free hWalk hOrder hSome hTaken
      rw [if_neg hNot]
      exact ⟨fun hCreated => absurd hCreated hNot, .inl hNone⟩
    · rw [if_neg (mt List.contains_iff_mem.mp hTaken)] at hStatus
      have hCreated : Created statusCode := .inr hStatus
      rw [if_pos hCreated]
      exact ⟨fun _ => Unrefused.accept hWalk fun hOld => hTaken (List.mem_append_left _ hOld),
        .inr hWalk.1⟩
  | created artifact data statusCode text rest published hStatus => exact ⟨hWalk hStatus, hOne⟩
  | rejected artifact data statusCode text rest published message hStatus => exact ⟨trivial, hOne⟩
  | finished published => exact ⟨trivial, hOne⟩
  | raised worker message hActive => exact (show False from hUnfolds).elim

/-- What holds in the runs of a pipeline of one job. -/
structure OneJob (pipeline : PipelineConfig) (outcome : String → Outcome) (taken : List (String × String))
    (events : List Event) (s : Execution) : Prop where
  walk : ∀ job worker, s.futures.get? job = some worker → worker.WalksUnrefused pipeline taken s.history
  either : s.history.accepted = [] ∨ s.history.rejected = []
  untouched : ∀ job ∈ pipeline.jobs.keys, Untouched events job →
    s.history.accepted = [] ∧ s.history.rejected = []
  results : ∀ job result, s.history.results.get? job = some result → outcome job = .finished result.exitCode
  accepted : s.history.accepted ≠ [] → ∃ job ∈ pipeline.jobs.keys, (outcome job).Succeeds

theorem Works.results {lockfile : Option Lockfile} {job : String} {worker worker' : Worker}
    {action : Action} {history : History}
    (h : Works host pipeline lockfile job worker action worker')
    (hUnfolds : ActionUnfolds (outcome job) taken history (some worker) action)
    (hOld : ∀ job result, history.results.get? job = some result → outcome job = .finished result.exitCode) :
    ∀ other result, (history.record job worker action).results.get? other = some result →
      outcome other = .finished result.exitCode := by
  have hExit : ∀ exitCode, outcome job = .finished exitCode → ∀ other result,
      (history.results.set job ⟨exitCode⟩).get? other = some result →
        outcome other = .finished result.exitCode := by
    intro exitCode hOutcome other result hGet
    rw [Dict.get?_set] at hGet
    split at hGet
    · rename_i hSame
      cases hGet
      exact hSame ▸ hOutcome
    · exact hOld other result hGet
  cases h with
  | succeeded => exact hExit 0 hUnfolds
  | failed exitCode hCode => exact hExit exitCode hUnfolds
  | handled artifact data rest published statusCode text =>
    simp only [History.record]
    split <;> exact hOld
  | raised worker message hActive => exact (show False from hUnfolds).elim
  | _ => exact hOld

theorem OneJob.worked {events : List Event} {job : String} {worker worker' : Worker} {action : Action}
    (hOne : pipeline.jobs.keys.length ≤ 1) (hOrder : AcceptedToTheEnd taken pipeline.artifacts)
    (hTraced : Traced registry pipeline s) (h : OneJob pipeline outcome taken events s)
    (hWorker : s.futures.get? job = some worker)
    (hWorks : Works host pipeline s.run.lockfile job worker action worker')
    (hUnfolds : ActionUnfolds (outcome job) taken s.history (some worker) action) :
    OneJob pipeline outcome taken (events ++ [.work job action]) (s.worked job worker action worker') := by
  have hJob := hTraced.within.job job worker hWorker
  obtain ⟨hWalk, hEither⟩ := hWorks.unrefused hOrder hUnfolds (h.walk job worker hWorker) h.either
  refine ⟨?_, hEither, ?_, hWorks.results hUnfolds h.results, ?_⟩
  · intro other worker₁ hGet
    rw [Execution.worked, Dict.get?_set] at hGet
    split at hGet
    · cases hGet
      exact hWalk
    · rename_i hNe
      exact absurd (eq_of_length_le_one hOne (hTraced.within.job other worker₁ hGet) hJob) hNe
  · intro other hOther hUntouched
    cases eq_of_length_le_one hOne hOther hJob
    exact (hUntouched action (by simp)).elim
  · intro hSome
    cases hWorks with
    | handled artifact data rest published statusCode text =>
      have hExited := hTraced.exited job _ hWorker (List.cons_ne_nil artifact rest)
      exact ⟨job, hJob, h.results job _ hExited⟩
    | raised worker message hActive => exact (show False from hUnfolds).elim
    | _ => exact h.accepted hSome

theorem OneJob.moves {g : JobGraph} {plan : List (List String)} {events : List Event}
    (hOne : pipeline.jobs.keys.length ≤ 1) (hOrder : AcceptedToTheEnd taken pipeline.artifacts)
    (hTraced : Traced registry pipeline s) (hRecords : RecordsInv g plan (events ++ [e]) t)
    (h : OneJob pipeline outcome taken events s) (hMove : Moves host registry pipeline s e t)
    (hUnfolds : Unfolds host outcome taken s e) : OneJob pipeline outcome taken (events ++ [e]) t := by
  cases hMove.poolStep with
  | worked job worker worker' action hWorker hWorks =>
    rw [Unfolds, hWorker] at hUnfolds
    exact h.worked hOne hOrder hTraced hWorker hWorks hUnfolds
  | main e t hHistory hPool hEvent =>
    have hBefore : ∀ job ∈ pipeline.jobs.keys, Untouched (events ++ [e]) job →
        s.history.accepted = [] ∧ s.history.rejected = [] := fun job hJob hUntouched =>
      h.untouched job hJob fun action hMem => hUntouched action (List.mem_append_left _ hMem)
    refine ⟨?_, ?_, ?_, ?_, ?_⟩ <;> rw [hHistory]
    · intro job worker hGet
      cases hPool with
      | same hFutures => exact h.walk job worker (hFutures ▸ hGet)
      | opened scheduler rest integrityFailed hMain hFutures =>
        rw [hFutures] at hGet
        cases hGet
      | queued scheduler queuedJob todo rest hMain hJob hFutures =>
        have hFits := hRecords.fits job worker hGet
        rw [hFutures, Dict.get?_set] at hGet
        split at hGet
        · rename_i hSame
          cases hGet
          exact hBefore job (hSame ▸ hJob) hFits
        · exact h.walk job worker hGet
    · exact h.either
    · exact hBefore
    · exact h.results
    · exact h.accepted

end Forge.Engine
