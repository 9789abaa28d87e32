import Forge.Engine.Classification
import Forge.Platform.Publication

/-! # Resolutions while the registry grows

The engine declares the dependencies of a pipeline for every artifact of it, so one run's publishes are read by the
resolutions of the others. Where the other clients declare lists that the resolver can read and each pipeline
comes from the parser, the engine's publishes keep this so, and every resolution is classified.
-/
namespace Forge.Platform
open Forge.Python Forge.Registry Forge.Engine Forge.Theory
set_option autoImplicit false

variable {floats : FloatRepr} {elsewhere : RegistryClient} {events : List SystemEvent} {e : SystemEvent}
  {p q : System} {r : Nat} {run : SubmittedRun} {pipeline : PipelineConfig}

/-! ## What the engine declares -/

/-- The pipeline comes from the parser, and no constraint of it is made of `=` alone. -/
def Parsed (pipeline : PipelineConfig) : Prop :=
  (∃ compose source, PipelineParser.Accepts compose source pipeline) ∧ NoEqualityOnly pipeline

theorem Parsed.usable (h : Parsed pipeline) {dep : DepEntry} (hDep : dep ∈ pipeline.dependencies) :
    ∃ name constraint, dep = entryOf name constraint ∧ Usable Segment dep := by
  obtain ⟨⟨compose, source, hAccepts⟩, hOther⟩ := h
  exact usable_of_accepts hAccepts hOther hDep

/-- What an accepted pipeline declares arrives at the registry under its name and its version. -/
theorem isCoordinate_of_accepts {compose : PipelineParser.YamlModule} {source : PipelineParser.Source}
    (h : PipelineParser.Accepts compose source pipeline) {artifact : PipelineArtifact}
    (hArtifact : artifact ∈ pipeline.artifacts) : isCoordinate artifact.name artifact.version = true := by
  obtain ⟨declared, hValid, rfl⟩ := h.artifact hArtifact
  have hName : isSegment declared.name = true := isSegment_of_packageName hValid.name
  have hVersion : isSegment (strip declared.version) = true :=
    isSegment_of_valid (isValidSemver_strip hValid.version)
  simp [PipelineParser.normaliseArtifact, isCoordinate, hName, hVersion]

/-- An entry of the pipeline as `json.dumps` gets it. -/
def declaredEntry (dep : DepEntry) : Json := .obj (dep.entries.map fun entry => (entry.1, .str entry.2))

theorem declaredEntry_entryOf (name constraint : String) :
    declaredEntry (entryOf name constraint) = .obj [("name", .str name), ("version", .str constraint)] := rfl

theorem isUsableEntry_declared {dep : DepEntry} {name constraint : String} (hDep : dep = entryOf name constraint)
    (h : Usable Segment dep) : isUsableEntry (declaredEntry dep) = true := by
  subst hDep
  obtain ⟨⟨name', constraint', constraintSet, hNames, hSet⟩, hKnown⟩ := h
  have hOwn : DepEntry.Names (entryOf name constraint) name constraint := ⟨rfl, rfl⟩
  obtain ⟨rfl, rfl⟩ := hOwn.unique hNames
  have hName : isSegment name = true := hKnown name constraint hNames
  rw [declaredEntry_entryOf]
  simp [isUsableEntry, List.lookup_cons, hName, hSet, Except.toOption]

theorem areRenderable_declared {deps : List DepEntry} (h : ∀ dep ∈ deps, ∃ name constraint, dep = entryOf name constraint) :
    areRenderable (deps.map declaredEntry) = true := by
  induction deps with
  | nil => rfl
  | cons dep deps ih =>
    obtain ⟨name, constraint, rfl⟩ := h dep List.mem_cons_self
    rw [List.map_cons, declaredEntry_entryOf, areRenderable, ih fun d hd => h d (List.mem_cons_of_mem _ hd)]
    rfl

theorem canonical_declared (repr : String → String) {deps : List DepEntry}
    (h : ∀ dep ∈ deps, ∃ name constraint, dep = entryOf name constraint) :
    CanonicalItems repr (deps.map declaredEntry) := by
  induction deps with
  | nil => trivial
  | cons dep deps ih =>
    obtain ⟨name, constraint, rfl⟩ := h dep List.mem_cons_self
    rw [List.map_cons, declaredEntry_entryOf, CanonicalItems]
    refine ⟨?_, ih fun d hd => h d (List.mem_cons_of_mem _ hd)⟩
    simp [Canonical, CanonicalMembers]

theorem Parsed.isUsable (h : Parsed pipeline) :
    isUsable (storedDeps floats.json (floats.json.dumps (declaredDeps pipeline))) = true := by
  have hEntries : ∀ dep ∈ pipeline.dependencies, ∃ name constraint, dep = entryOf name constraint := by
    intro dep hDep
    obtain ⟨name, constraint, hEntry, -⟩ := h.usable hDep
    exact ⟨name, constraint, hEntry⟩
  have hDeclared : declaredDeps pipeline = .arr (pipeline.dependencies.map declaredEntry) := rfl
  have hLoads : floats.json.loads (floats.json.dumps (declaredDeps pipeline)) = .ok (declaredDeps pipeline) := by
    apply loads_dumps floats .default
    rw [hDeclared, Canonical]
    exact canonical_declared floats.repr hEntries
  rw [storedDeps, depList, hLoads]
  dsimp only
  split
  · rw [hDeclared, Registry.isUsable, isRenderable, areRenderable_declared hEntries, Bool.true_and, List.all_eq_true]
    intro item hItem
    obtain ⟨dep, hDep, rfl⟩ := List.mem_map.mp hItem
    obtain ⟨name, constraint, hEntry, hUsable⟩ := h.usable hDep
    exact isUsableEntry_declared hEntry hUsable
  · rfl

/-! ## The invariant -/

/-- What the other clients send, the resolver can read, and what is submitted, the parser has accepted. -/
def SystemEvent.IsReadable (json : JsonModule) : SystemEvent → Prop
  | .registry (.publish _ form) => isUsable (storedDeps json form.deps) = true
  | .submit _ _ pipeline => Parsed pipeline
  | _ => True

structure System.Usable (json : JsonModule) (p : System) : Prop where
  server : p.service.server.Usable json
  requests : ∀ request ∈ p.service.server.requests.map Prod.fst, isUsable (storedDeps json request.deps) = true
  runs : ∀ (r : Nat) run, p.runs[r]? = some run → Parsed run.pipeline

theorem insertsUsable_of_requests {json : JsonModule} {s : Server} (event : Registry.Event)
    (h : ∀ request ∈ s.requests.map Prod.fst, isUsable (storedDeps json request.deps) = true) :
    InsertsUsable json s event := by
  unfold InsertsUsable insertsUsable
  split
  · split
    · rename_i request data sha hAt
      exact h request (List.mem_map_of_mem (List.mem_of_getElem? hAt))
    · rfl
  · rfl

theorem usable_next {s t : Service} {event : ServiceEvent} (h : s.server.Usable floats.json)
    (hRequests : ∀ request ∈ s.server.requests.map Prod.fst, isUsable (storedDeps floats.json request.deps) = true)
    (hMove : ServiceMoves floats.json s event t)
    (hForm : ∀ credentials form, event = .publish credentials form →
      isUsable (storedDeps floats.json form.deps) = true) :
    t.server.Usable floats.json ∧
      ∀ request ∈ t.server.requests.map Prod.fst, isUsable (storedDeps floats.json request.deps) = true := by
  cases hMove with
  | admitted credentials publisher form hAuth =>
    have hArrive : Server.Step floats.json s.server (.arrive (form.request publisher)) _ := rfl
    refine ⟨h.step hArrive rfl, fun request hRequest => ?_⟩
    rw [List.map_append] at hRequest
    cases List.mem_append.mp hRequest with
    | inl hOld => exact hRequests request hOld
    | inr hNew =>
      cases List.mem_singleton.mp hNew
      exact hForm credentials form rfl
  | served served server hEvent hStep =>
    refine ⟨h.step hStep (insertsUsable_of_requests served hRequests), ?_⟩
    rw [hStep.requests hEvent]
    exact hRequests
  | _ => exact ⟨h, hRequests⟩

theorem SystemMoves.parsed (h : SystemMoves floats.json elsewhere p e q) (hUsable : p.Usable floats.json)
    (hReadable : e.IsReadable floats.json) {run' : SubmittedRun} (hRun' : q.runs[r]? = some run') :
    Parsed run'.pipeline := by
  cases h with
  | submitted credentials submitter host pipeline hAuth =>
    rw [List.getElem?_append] at hRun'
    split at hRun'
    · exact hUsable.runs r run' hRun'
    · rw [List.getElem?_singleton] at hRun'
      split at hRun'
      · cases hRun'
        exact hReadable
      · cases hRun'
  | stepped e r₀ run event registry execution hRun hAsks hStep =>
    rcases getElem?_setRun hRun' with ⟨rfl, rfl⟩ | hOld
    · exact hUsable.runs r run hRun
    · exact hUsable.runs r run' hOld
  | posted r₀ run job text publisher artifact data rest published service hRun =>
    rcases getElem?_setRun hRun' with ⟨rfl, rfl⟩ | hOld
    · exact hUsable.runs r run hRun
    · exact hUsable.runs r run' hOld
  | restarted => cases hRun'
  | _ => exact hUsable.runs r run' hRun'

theorem SystemMoves.usable (h : SystemMoves floats.json elsewhere p e q) (hUsable : p.Usable floats.json)
    (hReadable : e.IsReadable floats.json) : q.Usable floats.json := by
  have hRuns : ∀ (r : Nat) run, q.runs[r]? = some run → Parsed run.pipeline :=
    fun r run hRun => h.parsed hUsable hReadable hRun
  cases h with
  | registered event service hStep =>
    have hForm : ∀ credentials form, event = .publish credentials form →
        isUsable (storedDeps floats.json form.deps) = true := by
      rintro credentials form rfl
      exact hReadable
    obtain ⟨hServer, hRequests⟩ := usable_next hUsable.server hUsable.requests hStep.moves hForm
    exact ⟨hServer, hRequests, hRuns⟩
  | posted r run job text publisher artifact data rest published service hRun hPosts hWorker hAuth hStep hService =>
    have hForm : ∀ credentials form, ServiceEvent.publish run.forgeToken
        (postedForm floats.json run.pipeline artifact data) = .publish credentials form →
        isUsable (storedDeps floats.json form.deps) = true := by
      intro credentials form hSame
      cases hSame
      exact (hUsable.runs r run hRun).isUsable
    obtain ⟨hServer, hRequests⟩ := usable_next hUsable.server hUsable.requests hStep.moves hForm
    exact ⟨hServer, hRequests, hRuns⟩
  | _ => exact ⟨hUsable.server, hUsable.requests, hRuns⟩

theorem usable_initial {json : JsonModule} : System.Usable json .initial where
  server := ⟨by simp [System.initial, Service.initial, Server.At, Server.initial],
    by simp [System.initial, Service.initial, Server.initial, ArtifactTable.empty]⟩
  requests := by simp [System.initial, Service.initial, Server.initial]
  runs r run hRun := by simp [System.initial] at hRun

/-! ## Resolutions -/

/-- Where every request about the names of `Known` is answered, only such packages are locked. -/
theorem known_of_locked {registry : RegistryClient} {Known : String → Prop} (h : Answers registry Known)
    {rootDeps : List DepEntry} (hDeps : ∀ dep ∈ rootDeps, Usable Known dep) {lockfile : Lockfile}
    (hResolve : Registry.resolve registry rootDeps = .ok lockfile) {pkg : LockedPackage}
    (hPkg : pkg ∈ lockfile.packages) : Known pkg.name := by
  obtain ⟨roots, st, hFinal, rfl⟩ := resolve_ok hResolve
  have hRoots : ∀ name ∈ roots.keys, Known name := by
    intro name hName
    obtain ⟨req, hReq⟩ := List.exists_mem_of_ne_nil _ ((hFinal.rootsOf.keys name).mp hName)
    obtain ⟨⟨dep, hDep, hNames⟩, -⟩ := hFinal.rootsOf.sound name req hReq
    exact (hDeps dep hDep).2 name req.constraint hNames
  obtain ⟨resolved, hResolved, -⟩ := hFinal.mem_packages.mp hPkg
  have hSelected := (hFinal.inv.resolvedMeta _ _ hResolved).2.1
  exact h.known_selected hFinal.inv hRoots (List.mem_map_of_mem hSelected)

theorem System.Usable.rows (h : p.Usable floats.json) (hSound : p.Sound floats.json) :
    ∀ store ∈ p.stores, ∀ row ∈ store.artifacts.rows, row.Usable floats.json :=
  fun _ hStore row hRow => h.server.rows row ((hSound.grows_store hStore).rows row hRow)

/-- Where the other clients' lists can be read and the pipelines come from the parser, without constraints of `=`
alone, each run gets a lockfile from its resolution, of rows of the registry, or ends as a cycle or a conflict,
whenever its requests are answered and whatever is published meanwhile. -/
theorem resolutions_classified
    (hRun : Run (restrict (System.Step floats.json elsewhere) fun _ e => e.IsReadable floats.json) .initial events p)
    (hAt : p.runs[r]? = some run) :
    (∀ listed delay,
      Classified (HttpRegistryClient.during floats.json elsewhere p.past p.store listed delay) run.pipeline) ∧
    ∀ lockfile, run.execution.run.lockfile = some lockfile → ∀ pkg ∈ lockfile.packages,
      isCoordinate pkg.name pkg.version = true ∧ p.store.Locks pkg := by
  have hUsable := hRun.invariant (fun p e q h hStep => hStep.1.moves.usable h hStep.2) usable_initial
  have hReached : Reached floats.json elsewhere p := ⟨events, hRun.of_restrict⟩
  have hRows := hUsable.rows hReached.sound
  have hDeps : ∀ dep ∈ run.pipeline.dependencies, Usable Segment dep := by
    intro dep hDep
    obtain ⟨-, -, -, hEntry⟩ := (hUsable.runs r run hAt).usable hDep
    exact hEntry
  constructor
  · intro listed delay
    have hAnswers := (hReached.sound.views elsewhere listed delay).answers hRows
    exact classified_of_errors fun e st hResolve => hAnswers.resolve_error hDeps hResolve
  · intro lockfile hLockfile pkg hPkg
    obtain ⟨registry, before, hViews, hAlone⟩ := hReached.traced hAt
    have hResolves := lockfile_resolves hAlone hLockfile
    have hName : Segment pkg.name := known_of_locked (hViews.answers hRows) hDeps hResolves hPkg
    have hValid : ∀ store ∈ p.stores, ∀ row ∈ store.artifacts.rows, isValidSemver row.version = true :=
      fun store hStore row hRow => (hRows store hStore row hRow).version
    obtain ⟨hVersion, store, hStore, hLocks⟩ := hViews.locks hValid hResolves hPkg hName
    exact ⟨Bool.and_eq_true_iff.mpr ⟨hName, hVersion⟩, hLocks.grows (hReached.sound.grows_store hStore)⟩

def libraryDeclared : PipelineParser.Pipeline :=
  ⟨"library", "1.0.0", [],
    .ofList [("build", ⟨"alpine:3.18", ⟨.finite 1, "512Mi"⟩, [⟨"compile", "make > dist/lib.zip"⟩], []⟩)],
    [⟨"lib-core", "1.0.0", "dist/lib.zip"⟩]⟩

theorem parsed_library : Parsed libraryPipeline := by
  have hAccepts : PipelineParser.Accepts PipelineParser.noLoader (.dict libraryDeclared.assignments) libraryPipeline :=
    PipelineParser.accepts_assignments (by decide +kernel)
  refine ⟨⟨_, _, hAccepts⟩, fun dep hDep => ?_⟩
  cases hDep

theorem parsed_service : Parsed servicePipeline := by
  have hSame : servicePipeline = (serviceOn "lib-core" "^1.0.0").normalise.config := rfl
  have hAccepts : PipelineParser.Accepts PipelineParser.noLoader (.dict (serviceOn "lib-core" "^1.0.0").assignments)
      servicePipeline := PipelineParser.accepts_assignments (by decide +kernel)
  have hOther : isEqualityOnly "^1.0.0" = false := by decide +kernel
  refine ⟨⟨_, _, hAccepts⟩, ?_⟩
  rw [hSame]
  exact noEqualityOnly_serviceOn hOther

theorem isReadable_twoRuns : ∀ e ∈ twoRuns, e.IsReadable zeroFloats.json := by
  simp [twoRuns, List.replicate, SystemEvent.IsReadable, parsed_library, parsed_service]

theorem resolutions_classified_twoRuns : ∃ (p : System) (run : SubmittedRun),
    execute (System.next zeroFloats.json emptyRegistry) .initial twoRuns = some p ∧ p.runs[1]? = some run ∧
    run.lockfile = some ⟨[⟨"lib-core", "1.0.0", sha256 [1]⟩]⟩ ∧
    p.store.Locks ⟨"lib-core", "1.0.0", sha256 [1]⟩ := by
  have hSome : ((execute (System.next zeroFloats.json emptyRegistry) .initial twoRuns).any fun p =>
      decide (p.runs.map SubmittedRun.lockfile =
        [some ⟨[]⟩, some ⟨[⟨"lib-core", "1.0.0", sha256 [1]⟩]⟩])) = true := by decide +kernel
  obtain ⟨p, hExecute, hEnd⟩ := (Option.any_eq_true _ _).mp hSome
  have hLockfile : (p.runs.map SubmittedRun.lockfile)[1]? = some (some ⟨[⟨"lib-core", "1.0.0", sha256 [1]⟩]⟩) := by
    rw [of_decide_eq_true hEnd]
    rfl
  rw [List.getElem?_map] at hLockfile
  obtain ⟨run, hAt, hLocked⟩ := Option.map_eq_some_iff.mp hLockfile
  have hRun := (run_stepsOf_iff.mpr hExecute).restrict_of_forall fun e he _ => isReadable_twoRuns e he
  have hLocks := (resolutions_classified hRun hAt).2 _ hLocked _ List.mem_cons_self
  exact ⟨p, run, hExecute, hAt, hLocked, hLocks.2⟩

end Forge.Platform
