import Forge.Engine.ConstraintAgreement
import Forge.Engine.Idempotence
import Forge.Engine.ParsedPipeline
import Forge.Engine.RunResult
import Forge.Registry.PublishedDeps

/-! # How a run is classified when its resolution fails

The parser, the registry and the resolver each have their own notion of a dependency. Where every published
list is one that the resolver can read, and no constraint of the pipeline is made of `=` alone, a failed
resolution ends the run as a cycle or as a conflict.
-/
namespace Forge.Engine
open Forge.Python Forge.Registry Forge.Theory Forge.Engine.PipelineParser
set_option autoImplicit false

/-- The resolution returns a lockfile, or raises a `ResolutionError` for which the run ends with one of the
two statuses of a failed resolution. -/
def Classified (registry : RegistryClient) (pipeline : PipelineConfig) : Prop :=
  (∃ lockfile, Registry.resolve registry pipeline.dependencies = .ok lockfile) ∨
  ∃ exc st, Registry.resolve registry pipeline.dependencies = .error (exc, st) ∧
    exc.isResolutionError = true ∧ ∀ s : Execution,
      (s.resolve registry pipeline).run.status = .cycleFailure ∨
      (s.resolve registry pipeline).run.status = .conflictFailure

/-- No constraint of the pipeline consists of equalities alone. -/
def NoEqualityOnly (pipeline : PipelineConfig) : Prop :=
  ∀ dep ∈ pipeline.dependencies, ∀ name constraint, dep.Names name constraint → isEqualityOnly constraint = false

theorem classified_of_errors {registry : RegistryClient} {pipeline : PipelineConfig}
    (h : ∀ e st, Registry.resolve registry pipeline.dependencies = .error (e, st) →
      e.isResolutionError = true) : Classified registry pipeline := by
  cases hResolve : Registry.resolve registry pipeline.dependencies with
  | ok lockfile => exact .inl ⟨lockfile, hResolve⟩
  | error raised =>
    obtain ⟨exc, st⟩ := raised
    have hKind := h exc st hResolve
    refine .inr ⟨exc, st, hResolve, hKind, ?_⟩
    intro s
    rw [Execution.resolve, hResolve]
    cases exc with
    | cycleError cycle => exact .inl rfl
    | conflictError name reqs available => exact .inr rfl
    | packageNotFoundError message => exact .inr rfl
    | _ => cases hKind

theorem isSegment_of_packageName {name : String} (h : packageNamePattern.matchAnchored name = true) :
    Segment name := by
  have hFirst : ∀ c, isAsciiAlnum c = true → isDelimiter c = false :=
    fun _ => isDelimiter_of_class (by decide)
  have hRest : ∀ c, isPackageNameChar c = true → isDelimiter c = false :=
    fun _ => isDelimiter_of_class (by decide)
  have hOver : packageNamePattern.Over fun c => isDelimiter c = false := ⟨hFirst, hRest⟩
  exact isSegment_of_match hOver (by decide) h

theorem isEqualityOnly_strip (text : String) : isEqualityOnly (strip text) = isEqualityOnly text := by
  rw [isEqualityOnly, isEqualityOnly, strip_strip]

/-- What the parser accepts, the resolver can read. -/
theorem usable_of_accepts {compose : YamlModule} {source : Source} {pipeline : PipelineConfig}
    (hAccepts : Accepts compose source pipeline) (hOther : NoEqualityOnly pipeline) {dep : DepEntry}
    (hDep : dep ∈ pipeline.dependencies) :
    ∃ name constraint, dep = entryOf name constraint ∧ Usable Segment dep := by
  obtain ⟨declared, hValid, rfl⟩ := hAccepts.dependency hDep
  have hNames : DepEntry.Names (entryOf declared.name (strip declared.version)) declared.name
      (strip declared.version) := ⟨rfl, rfl⟩
  have hMore := hOther _ hDep _ _ hNames
  rw [isEqualityOnly_strip] at hMore
  obtain ⟨constraintSet, hSet⟩ := fromString_of_valid hValid.version hMore
  refine ⟨declared.name, strip declared.version, rfl,
    ⟨declared.name, strip declared.version, constraintSet, hNames, (fromString_strip _).trans hSet⟩, ?_⟩
  intro name constraint hNames'
  rw [← (hNames.unique hNames').1]
  exact isSegment_of_packageName hValid.name

theorem resolution_classified {floats : FloatRepr} {elsewhere : RegistryClient} {s : Server}
    {events : List Registry.Event}
    (hRun : Run (restrict (Server.Step floats.json) (InsertsUsable floats.json)) Server.initial events s)
    {compose : YamlModule} {source : Source} {pipeline : PipelineConfig}
    (hAccepts : Accepts compose source pipeline) (hOther : NoEqualityOnly pipeline) :
    Classified (HttpRegistryClient.client floats.json elsewhere s.store) pipeline := by
  have hAnswers := HttpRegistryClient.answers elsewhere (run_usable hRun).rows
  apply classified_of_errors
  intro e st hResolve
  refine hAnswers.resolve_error (fun dep hDep => ?_) hResolve
  obtain ⟨-, -, -, hUsable⟩ := usable_of_accepts hAccepts hOther hDep
  exact hUsable

/-! ## A well-formed and a malformed list -/

def publishWith (name deps : String) : Request := { publishOf name "1.0.0" [1] "ci" with deps }

/-- The publishes one after the other, each up to its answer. -/
def publishAll (requests : List Request) : List Registry.Event :=
  requests.zipIdx.flatMap fun p => .arrive p.1 :: List.replicate 6 (.advance p.2 "t0")

def serviceOn (name constraint : String) : Pipeline :=
  ⟨"service", "1.0.0", [⟨name, constraint⟩],
    .ofList [("test", ⟨"alpine:3.18", ⟨.finite 1, "512Mi"⟩, [⟨"test", "make"⟩], []⟩)], []⟩

def httpDeps : String := "[\x7b\"name\": \"lib-core\", \"version\": \"^1.0.0\"\x7d]"

theorem noEqualityOnly_serviceOn {name constraint : String} (h : isEqualityOnly constraint = false) :
    NoEqualityOnly (serviceOn name constraint).normalise.config := by
  intro dep hDep name' constraint' hNames
  cases List.mem_singleton.mp hDep
  have hOwn : DepEntry.Names (entryOf name (strip constraint)) name (strip constraint) := ⟨rfl, rfl⟩
  rw [← (hOwn.unique hNames).2, isEqualityOnly_strip]
  exact h

theorem resolution_classified_http : ∃ s,
    execute (guarded (Server.next zeroFloats.json) (InsertsUsable zeroFloats.json)) Server.initial
      (publishAll [publishWith "lib-core" "[]", publishWith "lib-http" httpDeps]) = some s ∧
    s.outcomes.map Prod.snd = [some 201, some 201] ∧
    Classified (HttpRegistryClient.client zeroFloats.json emptyRegistry s.store)
      (serviceOn "lib-http" " >=1.0.0 <2.0.0").normalise.config := by
  have hRuns : (execute (guarded (Server.next zeroFloats.json) (InsertsUsable zeroFloats.json)) Server.initial
      (publishAll [publishWith "lib-core" "[]", publishWith "lib-http" httpDeps])).map
      (fun s => s.outcomes.map Prod.snd) = some [some 201, some 201] := by decide +kernel
  obtain ⟨s, hExecute, hOutcomes⟩ := Option.map_eq_some_iff.mp hRuns
  have hRun := (run_stepsOf_iff.mpr hExecute).mono fun _ _ _ => stepsOf_guarded
  have hAccepts : Accepts noLoader (.dict (serviceOn "lib-http" " >=1.0.0 <2.0.0").assignments) _ :=
    accepts_assignments (by decide +kernel)
  exact ⟨s, hExecute, hOutcomes, resolution_classified hRun hAccepts (noEqualityOnly_serviceOn (by decide +kernel))⟩

theorem responds_of_created {s : Server} (h : ∀ entry ∈ s.outcomes, entry.2 = some 201) (i : Nat)
    (request : Request) (handler : Handler) (hAt : s.At i request handler) : s.Responds i request 201 := by
  have hRequest : s.requests[i]? = some (request, handler) := hAt
  obtain ⟨status, hOutcome⟩ : ∃ status, s.outcomes[i]? = some (request, status) := by
    rw [Server.outcomes, List.getElem?_map, hRequest]
    cases handler <;> exact ⟨_, rfl⟩
  cases h _ (List.mem_of_getElem? hOutcome)
  exact responds_of_outcomes hOutcome

/-- One publish whose only entry has no `version`. -/
def malformed : List Registry.Event := publishAll [publishWith "lib-core" "[\x7b\"name\": \"x\"\x7d]"]

theorem not_classified_malformed :
    ¬ ∀ (floats : FloatRepr) elsewhere s events compose source pipeline,
      Run (Server.Step floats.json) Server.initial events s →
      (∀ i request handler, s.At i request handler → s.Responds i request 201) →
      Accepts compose source pipeline →
      Classified (HttpRegistryClient.client floats.json elsewhere s.store) pipeline := by
  intro h
  have hRuns : (execute (Server.next zeroFloats.json) Server.initial malformed).any (fun s =>
      (∀ entry ∈ s.outcomes, entry.2 = some 201) ∧
      (Registry.resolve (HttpRegistryClient.client zeroFloats.json emptyRegistry s.store)
        [entryOf "lib-core" "^1.0.0"]).mapError Prod.fst = .error (.keyError "version")) = true := by
    decide +kernel
  obtain ⟨s, hExecute, hHolds⟩ := (Option.any_eq_true _ _).mp hRuns
  obtain ⟨hCreated, hRaised⟩ := of_decide_eq_true hHolds
  have hAccepts : Accepts noLoader (.dict (serviceOn "lib-core" "^1.0.0").assignments) _ :=
    accepts_assignments (by decide +kernel)
  rcases h zeroFloats emptyRegistry s malformed _ _ _ (run_stepsOf_iff.mpr hExecute) (responds_of_created hCreated)
    hAccepts with ⟨lockfile, hOk⟩ | ⟨exc, st, hError, hKind, -⟩
  · change Registry.resolve _ [entryOf "lib-core" "^1.0.0"] = _ at hOk
    rw [hOk] at hRaised
    cases hRaised
  · change Registry.resolve _ [entryOf "lib-core" "^1.0.0"] = _ at hError
    rw [hError] at hRaised
    cases hRaised
    cases hKind

end Forge.Engine
