import Forge.Engine.Acceptance

/-! # What the engine is given

The answer of the parser as the scheduler and the engine read it, with what they rely on.
-/
namespace Forge.Engine.PipelineParser
open Forge.Python Forge.Registry Forge.Theory
set_option autoImplicit false

def PipelineJob.config (job : PipelineJob) : JobConfig := { steps := job.steps, needs := job.needs }

def Pipeline.config (pipeline : Pipeline) : PipelineConfig where
  name := pipeline.name
  version := pipeline.version
  dependencies := pipeline.dependencies.map PipelineDependency.toDict
  jobs := pipeline.jobs.mapValues PipelineJob.config
  artifacts := pipeline.artifacts

theorem Pipeline.needs_iff {pipeline : Pipeline} {job dep : String} : Needs pipeline.config.jobs job dep ↔
    ∃ entry ∈ pipeline.jobs.entries, entry.1 = job ∧ dep ∈ entry.2.needs := by
  have hGet : pipeline.config.jobs.get? job = (pipeline.jobs.get? job).map PipelineJob.config :=
    Dict.get?_mapValues PipelineJob.config pipeline.jobs job
  rw [Needs, needsOf, hGet]
  cases hJob : pipeline.jobs.get? job with
  | none =>
    refine ⟨nofun, ?_⟩
    rintro ⟨entry, hEntry, rfl, -⟩
    exact absurd (Dict.mem_keys_of_mem hEntry) (Dict.get?_eq_none_iff.mp hJob)
  | some found =>
    constructor
    · exact fun h => ⟨(job, found), Dict.get?_eq_some_iff.mp hJob, rfl, h⟩
    · rintro ⟨⟨name, other⟩, hEntry, rfl, hDep⟩
      cases (Dict.get?_eq_some_iff.mpr hEntry).symm.trans hJob
      exact hDep

theorem Pipeline.Valid.needsKnown {raw : Pipeline} (h : raw.Valid) : NeedsKnown raw.normalise.config.jobs := by
  intro job dep hNeeds
  obtain ⟨entry, hEntry, -, hDep⟩ := Pipeline.needs_iff.mp hNeeds
  obtain ⟨job, hJob, rfl⟩ := List.mem_map.mp hEntry
  obtain ⟨need, hNeed, rfl⟩ := List.mem_map.mp hDep
  rw [Pipeline.config, Dict.keys_mapValues, Pipeline.normalise, Dict.keys_mapValues]
  exact h.jobs.known job hJob need hNeed

theorem Pipeline.Valid.not_needs_self {raw : Pipeline} (h : raw.Valid) (job : String) :
    ¬Needs raw.normalise.config.jobs job job := by
  intro hNeeds
  obtain ⟨entry, hEntry, hName, hDep⟩ := Pipeline.needs_iff.mp hNeeds
  obtain ⟨other, hOther, rfl⟩ := List.mem_map.mp hEntry
  obtain ⟨need, hNeed, hStrip⟩ := List.mem_map.mp hDep
  exact h.jobs.others other hOther need hNeed (hStrip.trans hName.symm)

/-! ## Accepted pipelines -/

/-- The parser accepts the source, and the engine is given the pipeline that it returns. -/
def Accepts (compose : YamlModule) (source : Source) (pipeline : PipelineConfig) : Prop :=
  ∃ parsed : Pipeline, parseAndValidate compose source = .ok parsed.toDict ∧ pipeline = parsed.config

section
variable {compose : YamlModule} {source : Source} {pipeline : PipelineConfig}

theorem Accepts.exists_valid (h : Accepts compose source pipeline) :
    ∃ raw : Pipeline, raw.Valid ∧ pipeline = raw.normalise.config := by
  obtain ⟨parsed, hParse, rfl⟩ := h
  obtain ⟨data, raw, -, -, hValid, hDict⟩ := exists_of_parse_ok hParse
  exact ⟨raw, hValid, congrArg Pipeline.config (Pipeline.toDict_injective hDict)⟩

theorem Accepts.needsKnown (h : Accepts compose source pipeline) : NeedsKnown pipeline.jobs := by
  obtain ⟨raw, hValid, rfl⟩ := h.exists_valid
  exact hValid.needsKnown

theorem Accepts.not_needs_self (h : Accepts compose source pipeline) (job : String) :
    ¬Needs pipeline.jobs job job := by
  obtain ⟨raw, hValid, rfl⟩ := h.exists_valid
  exact hValid.not_needs_self job

/-- Each dependency has passed its checks and has its constraint stripped. -/
theorem Accepts.dependency (h : Accepts compose source pipeline) {dep : DepEntry}
    (hDep : dep ∈ pipeline.dependencies) :
    ∃ declared : PipelineDependency, ValidDependency declared ∧
      dep = entryOf declared.name (strip declared.version) := by
  obtain ⟨raw, hValid, rfl⟩ := h.exists_valid
  obtain ⟨normal, hNormal, rfl⟩ := List.mem_map.mp hDep
  obtain ⟨declared, hDeclared, rfl⟩ := List.mem_map.mp hNormal
  exact ⟨declared, hValid.dependencies declared hDeclared, rfl⟩

/-- Each artifact has passed its checks and has its version and its path stripped. -/
theorem Accepts.artifact (h : Accepts compose source pipeline) {artifact : PipelineArtifact}
    (hArtifact : artifact ∈ pipeline.artifacts) :
    ∃ declared : PipelineArtifact, ValidArtifact declared ∧ artifact = normaliseArtifact declared := by
  obtain ⟨raw, hValid, rfl⟩ := h.exists_valid
  obtain ⟨declared, hDeclared, rfl⟩ := List.mem_map.mp hArtifact
  exact ⟨declared, hValid.artifacts declared hDeclared, rfl⟩

theorem accepts_assignments {pipeline : Pipeline}
    (hOk : (parseAndValidate compose (.dict pipeline.assignments)).isOk = true) :
    Accepts compose (.dict pipeline.assignments) pipeline.normalise.config := by
  obtain ⟨d, h⟩ := exists_of_isOk hOk
  obtain ⟨raw, hRaw, -, rfl⟩ := parse_dict_ok_iff.mp h
  cases hRaw.unique (describes_assignments pipeline)
  exact ⟨_, h, rfl⟩

end

end Forge.Engine.PipelineParser
