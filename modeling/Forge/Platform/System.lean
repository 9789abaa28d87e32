import Mathlib.Logic.Function.Basic
import Forge.Engine.Pool
import Forge.Registry.HttpView
import Forge.Registry.Service

/-! # The whole platform

One registry and one engine with any number of runs. The engine resolves, downloads and publishes through the
registry, which serves other clients as well; its handlers, the workers of all runs and new submissions
interleave. What a name or version that is no path segment reaches is left open, and so is the text of an answer.
-/
namespace Forge.Platform
open Forge.Python Forge.Registry Forge.Engine Forge.Theory
set_option autoImplicit false

/-- An entry of `run_storage`. `posts` are the publish requests on their way, by their jobs. -/
structure SubmittedRun where
  host : Host
  pipeline : PipelineConfig
  submitter : String
  forgeToken : String
  execution : Execution := .initial
  posts : String → Option Nat := fun _ => none

/-- `past` are the stores that the registry has had, in their order. -/
structure System where
  service : Service
  past : List Store
  runs : List SubmittedRun

def System.initial : System := ⟨.initial, [], []⟩

/-- `resolve r listed delay` is the resolution of a run, whose requests were answered at the given times. A
`post` sends the publish request of a worker, a `reply` brings the answer back, and a `restart` of the engine
loses its runs. -/
inductive SystemEvent where
  | registry (event : ServiceEvent)
  | submit (credentials : String) (host : Host) (pipeline : PipelineConfig)
  | resolve (r : Nat) (listed : String → Nat) (delay : String → String → Nat)
  | pull (r : Nat) (job : String)
  | post (r : Nat) (job text : String)
  | reply (r : Nat) (job text : String)
  | work (r : Nat) (event : Engine.Event)
  | restart

/-! ## Requests of the engine -/

def isCoordinate (name version : String) : Bool := isSegment name && isSegment version

/-- `pipeline_config["dependencies"]`, which `publish_artifact` declares. -/
def declaredDeps (pipeline : PipelineConfig) : Json :=
  .arr (pipeline.dependencies.map fun dep => .obj (dep.entries.map fun entry => (entry.1, .str entry.2)))

def postedForm (json : JsonModule) (pipeline : PipelineConfig) (artifact : PipelineArtifact) (data : Bytes) :
    Form where
  name := artifact.name
  version := artifact.version
  file := data
  checksum := "sha256:" ++ sha256 data
  deps := json.dumps (declaredDeps pipeline)

/-- Status and content of the answer to a download. -/
def pulled : Answer Download → Nat × Bytes
  | .ok download => (200, download.content)
  | .raised exc => (exc.statusCode, [])
  | .internalServerError => (500, [])

/-- Whether the step of a run involves no request to the registry. -/
def SubmittedRun.isLocal (run : SubmittedRun) : Engine.Event → Bool
  | .resolve => false
  | .work job (.pull _ _) =>
    match run.execution.futures.get? job with
    | some (.pulling (dep :: _)) => !isCoordinate dep.1 dep.2.version
    | _ => true
  | .work job (.handle _ _) =>
    match run.execution.futures.get? job with
    | some (.posting artifact _ _ _) => !isCoordinate artifact.name artifact.version
    | _ => true
  | _ => true

/-- A worker that has stopped waiting for its answer has closed the connection. -/
def awaited (execution : Execution) (posts : String → Option Nat) (job : String) : Option Nat :=
  match execution.futures.get? job with
  | some (.posting _ _ _ _) => posts job
  | _ => none

def SubmittedRun.after (run : SubmittedRun) (execution : Execution) : SubmittedRun :=
  { run with execution, posts := awaited execution run.posts }

def SubmittedRun.step (run : SubmittedRun) (registry : RegistryClient) (event : Engine.Event) :
    Option SubmittedRun :=
  (executePipeline run.host registry run.pipeline run.execution event).map run.after

/-! ## Steps -/

def System.store (p : System) : Store := p.service.server.store

def System.advance (p : System) (service : Service) : System :=
  { p with service, past := p.past ++ [p.store] }

def System.setRun (p : System) (r : Nat) (run : SubmittedRun) : System := { p with runs := p.runs.set r run }

/-- The answer to a publish request, where it does not get past the authentication, or its way to the handler. -/
def System.post (json : JsonModule) (elsewhere : RegistryClient) (p : System) (r : Nat) (run : SubmittedRun)
    (job text : String) : Option System :=
  match run.execution.futures.get? job, run.posts job with
  | some (.posting artifact data _ _), none =>
    if isCoordinate artifact.name artifact.version then
      match auth p.service.tokens run.forgeToken with
      | .error exc => (run.step elsewhere (.work job (.handle exc.statusCode text))).map (p.setRun r)
      | .ok _ =>
        (p.service.next json (.publish run.forgeToken (postedForm json run.pipeline artifact data))).map
          fun service => (p.advance service).setRun r
            { run with posts := Function.update run.posts job (some p.service.server.requests.length) }
    else none
  | _, _ => none

def System.reply (elsewhere : RegistryClient) (p : System) (r : Nat) (run : SubmittedRun) (job text : String) :
    Option System :=
  match run.posts job with
  | none => none
  | some i =>
    match p.service.server.requests[i]? with
    | some (_, .answered answer) =>
      (run.step elsewhere (.work job (.handle (answer.statusCode 201) text))).map (p.setRun r)
    | _ => none

def System.pull (json : JsonModule) (elsewhere : RegistryClient) (p : System) (r : Nat) (run : SubmittedRun)
    (job : String) : Option System :=
  match run.execution.futures.get? job with
  | some (.pulling (dep :: _)) =>
    if isCoordinate dep.1 dep.2.version then
      let answer := pulled (downloadArtifact json p.store dep.1 dep.2.version)
      (run.step elsewhere (.work job (.pull answer.1 answer.2))).map (p.setRun r)
    else none
  | _ => none

def System.next (json : JsonModule) (elsewhere : RegistryClient) (p : System) : SystemEvent → Option System
  | .registry event => (p.service.next json event).map p.advance
  | .submit credentials host pipeline =>
    match auth p.service.tokens credentials with
    | .error _ => some p
    | .ok submitter =>
      some { p with runs := p.runs ++ [{ host, pipeline, submitter, forgeToken := credentials }] }
  | .resolve r listed delay => p.runs[r]?.bind fun run =>
    (run.step (HttpRegistryClient.during json elsewhere p.past p.store listed delay) .resolve).map (p.setRun r)
  | .pull r job => p.runs[r]?.bind fun run => p.pull json elsewhere r run job
  | .post r job text => p.runs[r]?.bind fun run => p.post json elsewhere r run job text
  | .reply r job text => p.runs[r]?.bind fun run => p.reply elsewhere r run job text
  | .work r event => p.runs[r]?.bind fun run =>
    if run.isLocal event then (run.step elsewhere event).map (p.setRun r) else none
  | .restart => some { p with runs := [] }

def System.Step (json : JsonModule) (elsewhere : RegistryClient) : System → SystemEvent → System → Prop :=
  stepsOf (System.next json elsewhere)

/-! ## Inversion -/

/-- A step of a run, with the registry that it sees. -/
inductive Asks (json : JsonModule) (elsewhere : RegistryClient) (p : System) (run : SubmittedRun) :
    Engine.Event → RegistryClient → Prop where
  | resolves (listed : String → Nat) (delay : String → String → Nat) :
      Asks json elsewhere p run .resolve (HttpRegistryClient.during json elsewhere p.past p.store listed delay)
  | pulls (job : String) (dep : DepPull) (rest : List DepPull)
      (hWorker : run.execution.futures.get? job = some (.pulling (dep :: rest)))
      (hCoordinate : isCoordinate dep.1 dep.2.version = true) :
      Asks json elsewhere p run (.work job (.pull (pulled (downloadArtifact json p.store dep.1 dep.2.version)).1
        (pulled (downloadArtifact json p.store dep.1 dep.2.version)).2)) elsewhere
  | unauthorized (job text : String) (exc : HTTPException) (hAuth : auth p.service.tokens run.forgeToken = .error exc) :
      Asks json elsewhere p run (.work job (.handle exc.statusCode text)) elsewhere
  | replied (job text : String) (i : Nat) (request : Request) (answer : Answer Published)
      (hPost : run.posts job = some i) (hAt : p.service.server.At i request (.answered answer)) :
      Asks json elsewhere p run (.work job (.handle (answer.statusCode 201) text)) elsewhere
  | alone (event : Engine.Event) (hLocal : run.isLocal event = true) : Asks json elsewhere p run event elsewhere

inductive SystemMoves (json : JsonModule) (elsewhere : RegistryClient) (p : System) : SystemEvent → System → Prop where
  | registered (event : ServiceEvent) (service : Service) (hStep : Service.Step json p.service event service) :
      SystemMoves json elsewhere p (.registry event) (p.advance service)
  | refused (credentials : String) (host : Host) (pipeline : PipelineConfig) :
      SystemMoves json elsewhere p (.submit credentials host pipeline) p
  | submitted (credentials submitter : String) (host : Host) (pipeline : PipelineConfig)
      (hAuth : auth p.service.tokens credentials = .ok submitter) :
      SystemMoves json elsewhere p (.submit credentials host pipeline)
        { p with runs := p.runs ++ [{ host, pipeline, submitter, forgeToken := credentials }] }
  | stepped (e : SystemEvent) (r : Nat) (run : SubmittedRun) (event : Engine.Event) (registry : RegistryClient)
      (execution : Execution) (hRun : p.runs[r]? = some run) (hAsks : Asks json elsewhere p run event registry)
      (hStep : Execution.Step run.host registry run.pipeline run.execution event execution) :
      SystemMoves json elsewhere p e (p.setRun r (run.after execution))
  | posted (r : Nat) (run : SubmittedRun) (job text publisher : String) (artifact : PipelineArtifact) (data : Bytes)
      (rest : List PipelineArtifact) (published : List PublishedArtifact) (service : Service)
      (hRun : p.runs[r]? = some run) (hPosts : run.posts job = none)
      (hWorker : run.execution.futures.get? job = some (.posting artifact data rest published))
      (hAuth : auth p.service.tokens run.forgeToken = .ok publisher)
      (hStep : Service.Step json p.service
        (.publish run.forgeToken (postedForm json run.pipeline artifact data)) service)
      (hService : service = { p.service with server := { p.service.server with requests :=
        p.service.server.requests ++
          [((postedForm json run.pipeline artifact data).request publisher, .received)] } }) :
      SystemMoves json elsewhere p (.post r job text) ((p.advance service).setRun r
        { run with posts := Function.update run.posts job (some p.service.server.requests.length) })
  | restarted : SystemMoves json elsewhere p .restart { p with runs := [] }

section
variable {json : JsonModule} {elsewhere : RegistryClient} {p q : System} {r : Nat} {run run' : SubmittedRun}
  {job text : String}

theorem step_some {registry : RegistryClient} {event : Engine.Event}
    (h : run.step registry event = some run') : ∃ execution,
      Execution.Step run.host registry run.pipeline run.execution event execution ∧ run' = run.after execution := by
  obtain ⟨execution, hStep, rfl⟩ := Option.map_eq_some_iff.mp h
  exact ⟨execution, hStep, rfl⟩

theorem step_moves {e : SystemEvent} {registry : RegistryClient} {event : Engine.Event}
    (hRun : p.runs[r]? = some run) (hAsks : Asks json elsewhere p run event registry)
    (h : (run.step registry event).map (p.setRun r) = some q) : SystemMoves json elsewhere p e q := by
  obtain ⟨run', hSome, rfl⟩ := Option.map_eq_some_iff.mp h
  obtain ⟨execution, hStep, rfl⟩ := step_some hSome
  exact .stepped e r run event registry execution hRun hAsks hStep

theorem pull_moves {e : SystemEvent} (hRun : p.runs[r]? = some run)
    (h : p.pull json elsewhere r run job = some q) : SystemMoves json elsewhere p e q := by
  unfold System.pull at h
  split at h
  · rename_i dep rest hWorker
    split at h
    · rename_i hCoordinate
      exact step_moves hRun (.pulls job dep rest hWorker hCoordinate) h
    · cases h
  · cases h

theorem post_moves (hRun : p.runs[r]? = some run) (h : p.post json elsewhere r run job text = some q) :
    SystemMoves json elsewhere p (.post r job text) q := by
  unfold System.post at h
  split at h
  · rename_i artifact data rest published hWorker hPosts
    split at h
    · cases hAuth : auth p.service.tokens run.forgeToken with
      | error exc =>
        rw [hAuth] at h
        exact step_moves hRun (.unauthorized job text exc hAuth) h
      | ok publisher =>
        rw [hAuth] at h
        obtain ⟨service, hService, rfl⟩ := Option.map_eq_some_iff.mp h
        have hStep := hService
        rw [Service.next, hAuth] at hService
        cases hService
        exact .posted r run job text publisher artifact data rest published _ hRun hPosts hWorker hAuth hStep rfl
    · cases h
  · cases h

theorem reply_moves {e : SystemEvent} (hRun : p.runs[r]? = some run)
    (h : p.reply elsewhere r run job text = some q) : SystemMoves json elsewhere p e q := by
  unfold System.reply at h
  split at h
  · cases h
  · rename_i i hPost
    split at h
    · rename_i request answer hAt
      exact step_moves hRun (.replied job text i request answer hPost hAt) h
    · cases h

theorem System.Step.moves {e : SystemEvent} (h : System.Step json elsewhere p e q) :
    SystemMoves json elsewhere p e q := by
  rw [System.Step, stepsOf] at h
  cases e with
  | registry event =>
    obtain ⟨service, hNext, rfl⟩ := Option.map_eq_some_iff.mp h
    exact .registered event service hNext
  | submit credentials host pipeline =>
    rw [System.next] at h
    cases hAuth : auth p.service.tokens credentials with
    | error exc =>
      rw [hAuth] at h
      cases h
      exact .refused credentials host pipeline
    | ok submitter =>
      rw [hAuth] at h
      cases h
      exact .submitted credentials submitter host pipeline hAuth
  | resolve r listed delay =>
    obtain ⟨run, hRun, hNext⟩ := Option.bind_eq_some_iff.mp h
    exact step_moves hRun (.resolves listed delay) hNext
  | pull r job =>
    obtain ⟨run, hRun, hNext⟩ := Option.bind_eq_some_iff.mp h
    exact pull_moves hRun hNext
  | post r job text =>
    obtain ⟨run, hRun, hNext⟩ := Option.bind_eq_some_iff.mp h
    exact post_moves hRun hNext
  | reply r job text =>
    obtain ⟨run, hRun, hNext⟩ := Option.bind_eq_some_iff.mp h
    exact reply_moves hRun hNext
  | work r event =>
    obtain ⟨run, hRun, hNext⟩ := Option.bind_eq_some_iff.mp h
    split at hNext
    · rename_i hLocal
      exact step_moves hRun (.alone event hLocal) hNext
    · cases hNext
  | restart =>
    cases h
    exact .restarted

/-! ## The registry of the platform -/

/-- The registry of the platform is a registry: its steps are those of the service, whoever asks for them. -/
theorem SystemMoves.service_run {e : SystemEvent} (h : SystemMoves json elsewhere p e q) :
    ∃ shown, Run (Service.Step json) p.service shown q.service := by
  cases h with
  | registered event service hStep => exact ⟨[event], .single hStep⟩
  | posted r run job text publisher artifact data rest published service hRun hPosts hWorker hAuth hStep hService =>
    exact ⟨_, .single hStep⟩
  | _ => exact ⟨[], .nil _⟩

end

end Forge.Platform
