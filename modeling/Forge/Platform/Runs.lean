import Forge.Engine.EntryHistory
import Forge.Engine.Launch
import Forge.Platform.System

/-! # The runs of the platform

Each run of the platform is a run of the engine alone, against a registry that answers from the stores which the
platform has had. So its lockfile consists of rows that are still there.
-/
namespace Forge.Platform
open Forge.Python Forge.Registry Forge.Engine Forge.Theory
set_option autoImplicit false

variable {json : JsonModule} {elsewhere : RegistryClient} {events : List SystemEvent} {e : SystemEvent} {p q : System}
  {r : Nat} {run run' : SubmittedRun}

/-! ## The stores -/

def System.stores (p : System) : List Store := p.past ++ [p.store]

/-- The registry has been reached from its start, and its stores have grown one into the next. -/
structure System.Sound (json : JsonModule) (p : System) : Prop where
  server : ∃ shown, Run (Server.Step json) .initial shown p.service.server
  grows : p.stores.Pairwise Store.Grows

theorem System.Sound.grows_store (h : p.Sound json) {store : Store} (hStore : store ∈ p.stores) :
    store.Grows p.store := by
  rcases List.mem_append.mp hStore with hPast | hNow
  · exact (List.pairwise_append.mp h.grows).2.2 store hPast p.store List.mem_cons_self
  · cases List.mem_singleton.mp hNow
    exact .refl _

theorem System.Sound.valid (hJson : json.Readable) (h : p.Sound json) :
    ∀ store ∈ p.stores, ∀ row ∈ store.artifacts.rows, isValidSemver row.version = true := by
  intro store hStore row hRow
  obtain ⟨shown, hServer⟩ := h.server
  exact (run_inv hJson hServer).valid row ((h.grows_store hStore).rows row hRow)

theorem System.Sound.advance (h : p.Sound json) {event : ServiceEvent} {service : Service}
    (hStep : Service.Step json p.service event service) : (p.advance service).Sound json := by
  obtain ⟨shown, hServer⟩ := h.server
  obtain ⟨more, hMore⟩ := hStep.moves.server_run
  have hGrows : p.store.Grows service.server.store := run_grows hMore
  refine ⟨⟨_, hServer.append hMore⟩, ?_⟩
  change (p.stores ++ [service.server.store]).Pairwise Store.Grows
  rw [List.pairwise_append]
  refine ⟨h.grows, List.pairwise_singleton _ _, ?_⟩
  intro store hStore later hLater
  cases List.mem_singleton.mp hLater
  exact (h.grows_store hStore).trans hGrows

theorem SystemMoves.sound (h : p.Sound json) (hMove : SystemMoves json elsewhere p e q) : q.Sound json := by
  cases hMove with
  | registered event service hStep => exact h.advance hStep
  | posted r run job text publisher artifact data rest published service hRun hPosts hWorker hAuth hStep hService =>
    exact ⟨(h.advance hStep).server, (h.advance hStep).grows⟩
  | _ => exact ⟨h.server, h.grows⟩

theorem SystemMoves.stores (hMove : SystemMoves json elsewhere p e q) : p.stores ⊆ q.stores := by
  cases hMove with
  | registered event service hStep => exact List.subset_append_left _ _
  | posted r run job text publisher artifact data rest published service hRun hPosts hWorker hAuth hStep hService =>
    exact List.subset_append_left _ _
  | _ => exact List.Subset.refl _

theorem SystemMoves.grows (h : p.Sound json) (hMove : SystemMoves json elsewhere p e q) : p.store.Grows q.store :=
  (hMove.sound h).grows_store (hMove.stores (List.mem_append_right _ List.mem_cons_self))

theorem sound_run (hRun : Run (System.Step json elsewhere) .initial events p) : p.Sound json := by
  refine hRun.invariant (fun p e q h hStep => hStep.moves.sound h) ?_
  exact ⟨⟨[], .nil _⟩, List.pairwise_singleton _ _⟩

/-! ## Tokens -/

/-- A token that is accepted stays accepted, for the same owner. -/
theorem auth_next {s t : Service} {event : ServiceEvent} (h : ServiceMoves json s event t)
    {credentials name : String} (hAuth : auth s.tokens credentials = .ok name) :
    auth t.tokens credentials = .ok name := by
  cases h with
  | created name raw tokens hName hRows =>
    rw [auth_ok_iff] at hAuth ⊢
    exact ⟨hAuth.1, verifyToken_append hRows hAuth.2⟩
  | _ => exact hAuth

theorem SystemMoves.auth (hMove : SystemMoves json elsewhere p e q) {credentials name : String}
    (hAuth : Registry.auth p.service.tokens credentials = .ok name) :
    Registry.auth q.service.tokens credentials = .ok name := by
  cases hMove with
  | registered event service hStep => exact auth_next hStep.moves hAuth
  | posted r run job text publisher artifact data rest published service hRun hPosts hWorker hOwner hStep hService =>
    exact auth_next hStep.moves hAuth
  | _ => exact hAuth

/-! ## One run among the others -/

/-- Where a run comes from after a step. -/
inductive RunMoves (json : JsonModule) (elsewhere : RegistryClient) (p : System) (r : Nat) : SubmittedRun → Prop where
  | kept (run : SubmittedRun) (hRun : p.runs[r]? = some run) : RunMoves json elsewhere p r run
  | submitted (host : Host) (pipeline : PipelineConfig) (submitter credentials : String)
      (hAuth : Registry.auth p.service.tokens credentials = .ok submitter) :
      RunMoves json elsewhere p r { host, pipeline, submitter, forgeToken := credentials }
  | stepped (run : SubmittedRun) (event : Engine.Event) (registry : RegistryClient) (execution : Execution)
      (hRun : p.runs[r]? = some run) (hAsks : Asks json elsewhere p run event registry)
      (hStep : Execution.Step run.host registry run.pipeline run.execution event execution) :
      RunMoves json elsewhere p r (run.after execution)
  | posted (run : SubmittedRun) (job : String) (i : Nat) (hRun : p.runs[r]? = some run) :
      RunMoves json elsewhere p r { run with posts := Function.update run.posts job (some i) }

theorem getElem?_setRun {run'' : SubmittedRun} {r' : Nat} (h : (p.setRun r run).runs[r']? = some run'') :
    (r' = r ∧ run'' = run) ∨ p.runs[r']? = some run'' := by
  rw [System.setRun, List.getElem?_set] at h
  split at h
  · rename_i hSame
    split at h
    · exact .inl ⟨hSame.symm, (Option.some.inj h).symm⟩
    · cases h
  · exact .inr h

theorem SystemMoves.runs (hMove : SystemMoves json elsewhere p e q) (hRun : q.runs[r]? = some run) :
    RunMoves json elsewhere p r run := by
  cases hMove with
  | submitted credentials submitter host pipeline hAuth =>
    rw [List.getElem?_append] at hRun
    split at hRun
    · exact .kept run hRun
    · rw [List.getElem?_singleton] at hRun
      split at hRun
      · cases hRun
        exact .submitted host pipeline submitter credentials hAuth
      · cases hRun
  | stepped e r' run₀ event registry execution hRun₀ hAsks hStep =>
    rcases getElem?_setRun hRun with ⟨rfl, rfl⟩ | hOld
    · exact .stepped run₀ event registry execution hRun₀ hAsks hStep
    · exact .kept run hOld
  | posted r' run₀ job text publisher artifact data rest published service hRun₀ hPosts hWorker hAuth hStep hService =>
    rcases getElem?_setRun hRun with ⟨rfl, rfl⟩ | hOld
    · exact .posted run₀ job _ hRun₀
    · exact .kept run hOld
  | restarted => cases hRun
  | _ => exact .kept run hRun

/-- Whether the platform gets there. -/
def Reached (json : JsonModule) (elsewhere : RegistryClient) (p : System) : Prop :=
  ∃ events, Run (System.Step json elsewhere) .initial events p

theorem Reached.sound (h : Reached json elsewhere p) : p.Sound json := by
  obtain ⟨events, hRun⟩ := h
  exact sound_run hRun

/-- A property of a run that its own steps keep, and those of the others. -/
theorem Reached.runs {P : System → SubmittedRun → Prop}
    (hOther : ∀ p e q run, Reached json elsewhere p → SystemMoves json elsewhere p e q → P p run → P q run)
    (hSubmitted : ∀ p host pipeline submitter credentials, Reached json elsewhere p →
      Registry.auth p.service.tokens credentials = .ok submitter →
      P p { host, pipeline, submitter, forgeToken := credentials })
    (hStepped : ∀ (p : System) (r : Nat) run event registry execution, Reached json elsewhere p →
      p.runs[r]? = some run → P p run →
      Asks json elsewhere p run event registry →
      Execution.Step run.host registry run.pipeline run.execution event execution → P p (run.after execution))
    (hPosted : ∀ p run job i, P p run → P p { run with posts := Function.update run.posts job (some i) })
    (h : Reached json elsewhere p) {r : Nat} {run : SubmittedRun} (hAt : p.runs[r]? = some run) : P p run := by
  have hKeeps : ∀ (p : System) e (q : System),
      (Reached json elsewhere p ∧ ∀ (r : Nat) run, p.runs[r]? = some run → P p run) →
      System.Step json elsewhere p e q →
      Reached json elsewhere q ∧ ∀ (r : Nat) run, q.runs[r]? = some run → P q run := by
    rintro p e q ⟨⟨events, hRun⟩, hRuns⟩ hStep
    have hReached : Reached json elsewhere p := ⟨events, hRun⟩
    refine ⟨⟨events ++ [e], hRun.append (.single hStep)⟩, ?_⟩
    intro r run hAt
    apply hOther p e q run hReached hStep.moves
    cases hStep.moves.runs hAt with
    | kept run hRun => exact hRuns r run hRun
    | submitted host pipeline submitter credentials hAuth =>
      exact hSubmitted p host pipeline submitter credentials hReached hAuth
    | stepped run event registry execution hRun hAsks hStep =>
      exact hStepped p r run event registry execution hReached hRun (hRuns r run hRun) hAsks hStep
    | posted run job i hRun => exact hPosted p run job i (hRuns r run hRun)
  obtain ⟨events, hRun⟩ := h
  exact (hRun.invariant hKeeps ⟨⟨[], .nil _⟩, fun r run hAt => by cases hAt⟩).2 r run hAt

/-! ## A run alone -/

section
variable {host : Host} {registry registry' : RegistryClient} {pipeline : PipelineConfig} {s t : Execution}
  {event : Engine.Event}

/-- Only the resolution looks at the registry. -/
theorem step_congr (hStep : Execution.Step host registry pipeline s event t) (hEvent : event ≠ .resolve) :
    Execution.Step host registry' pipeline s event t := by
  unfold Execution.Step stepsOf at hStep ⊢
  rw [← hStep]
  cases event with
  | resolve => exact absurd rfl hEvent
  | _ => simp only [executePipeline]

theorem main_of_resolve (hStep : Execution.Step host registry pipeline s .resolve t) : s.main = .queued := by
  cases hStep.moves with
  | resolved lockfile hMain hResolves => exact hMain
  | unresolved t hMain hNot hStops => exact hMain

theorem Asks.ne_resolve (h : Asks json elsewhere p run event registry) :
    event ≠ .resolve ∨ event = .resolve ∧ ∃ listed delay,
      registry = HttpRegistryClient.during json elsewhere p.past p.store listed delay := by
  cases h with
  | resolves listed delay => exact .inr ⟨rfl, listed, delay, rfl⟩
  | alone event hLocal =>
    refine .inl ?_
    rintro rfl
    cases hLocal
  | _ => exact .inl nofun

end

/-- The run is one of the engine alone, against a registry that answers from the stores so far. -/
def Traced (json : JsonModule) (p : System) (run : SubmittedRun) : Prop :=
  ∃ registry events, Views json p.stores registry ∧
    Run (Execution.Step run.host registry run.pipeline) .initial events run.execution

theorem System.Sound.views (h : p.Sound json) (elsewhere : RegistryClient) (listed : String → Nat)
    (delay : String → String → Nat) :
    Views json p.stores (HttpRegistryClient.during json elsewhere p.past p.store listed delay) :=
  HttpRegistryClient.views_during h.grows listed delay

theorem Traced.step {event : Engine.Event} {registry : RegistryClient} {execution : Execution}
    (hSound : p.Sound json) (h : Traced json p run) (hAsks : Asks json elsewhere p run event registry)
    (hStep : Execution.Step run.host registry run.pipeline run.execution event execution) :
    Traced json p (run.after execution) := by
  obtain ⟨before, events, hViews, hRun⟩ := h
  rcases hAsks.ne_resolve with hOther | ⟨rfl, listed, delay, rfl⟩
  · exact ⟨before, events ++ [event], hViews, hRun.append (.single (step_congr hStep hOther))⟩
  · have hInitial := eq_initial_of_queued hRun (main_of_resolve hStep)
    rw [hInitial] at hStep
    exact ⟨_, [.resolve], hSound.views elsewhere listed delay, .single hStep⟩

theorem Reached.traced (h : Reached json elsewhere p) (hAt : p.runs[r]? = some run) : Traced json p run := by
  refine h.runs (P := Traced json) ?_ ?_ ?_ ?_ hAt
  · rintro p e q run hReached hMove ⟨registry, events, hViews, hRun⟩
    exact ⟨registry, events, hViews.mono hMove.stores, hRun⟩
  · intro p host pipeline submitter credentials hReached hAuth
    exact ⟨_, [], hReached.sound.views elsewhere (fun _ => 0) (fun _ _ => 0), .nil _⟩
  · intro p r run event registry execution hReached hAt hTraced hAsks hStep
    exact hTraced.step hReached.sound hAsks hStep
  · exact fun p run job i hTraced => hTraced

/-! ## Lockfiles -/

theorem Traced.locks (hJson : json.Readable) (hSound : p.Sound json) (h : Traced json p run) {lockfile : Lockfile}
    (hLockfile : run.execution.run.lockfile = some lockfile) {pkg : LockedPackage} (hPkg : pkg ∈ lockfile.packages)
    (hName : Segment pkg.name) : Segment pkg.version ∧ p.store.Locks pkg := by
  obtain ⟨registry, events, hViews, hRun⟩ := h
  have hResolves := lockfile_resolves hRun hLockfile
  obtain ⟨hVersion, store, hStore, hLocks⟩ := hViews.locks (hSound.valid hJson) hResolves hPkg hName
  exact ⟨hVersion, hLocks.grows (hSound.grows_store hStore)⟩

end Forge.Platform
