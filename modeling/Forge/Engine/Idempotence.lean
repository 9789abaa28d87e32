import Forge.Engine.Acceptance

/-! # Parsing the parsed pipeline again

Normal forms are normal, and the normal form of a valid pipeline passes every check but two: names of steps and
paths of artifacts are checked before they are stripped, and stripping may make two names the same or take away
what made a path relative.
-/
namespace Forge.Engine.PipelineParser
open Forge.Python Forge.Registry Forge.Theory
set_option autoImplicit false

/-! ## Normal forms -/

theorem normaliseStep_idem (step : PipelineStep) : normaliseStep (normaliseStep step) = normaliseStep step := by
  simp [normaliseStep]

theorem normaliseDependency_idem (dep : PipelineDependency) :
    normaliseDependency (normaliseDependency dep) = normaliseDependency dep := by
  simp [normaliseDependency]

theorem normaliseArtifact_idem (artifact : PipelineArtifact) :
    normaliseArtifact (normaliseArtifact artifact) = normaliseArtifact artifact := by
  simp [normaliseArtifact]

theorem normaliseJob_idem (job : PipelineJob) : normaliseJob (normaliseJob job) = normaliseJob job := by
  simp [normaliseJob, normaliseStep_idem]

theorem Pipeline.normalise_idem (pipeline : Pipeline) : pipeline.normalise.normalise = pipeline.normalise := by
  have hJobs : (pipeline.jobs.mapValues normaliseJob).mapValues normaliseJob =
      pipeline.jobs.mapValues normaliseJob := by
    apply Dict.ext_entries
    simp [Dict.mapValues, normaliseJob_idem]
  simp [Pipeline.normalise, hJobs, normaliseDependency_idem, normaliseArtifact_idem]

/-! ## What stays valid -/

theorem isNonEmpty_strip (s : String) : isNonEmpty (strip s) = isNonEmpty s := by
  rw [isNonEmpty, isNonEmpty, strip_strip]

/-- A constraint is stripped before it is checked. -/
theorem isValidSemverConstraint_strip {text : String} (h : isValidSemverConstraint text = true) :
    isValidSemverConstraint (strip text) = true := by
  have hNonempty : strip text ≠ "" := by
    intro hEmpty
    simp [isValidSemverConstraint, hEmpty] at h
  have hText : text ≠ "" := by
    rintro rfl
    exact hNonempty (by decide)
  rw [← h]
  simp only [isValidSemverConstraint, strip_strip, hNonempty, hText]

theorem ValidDependency.normalise {dep : PipelineDependency} (h : ValidDependency dep) :
    ValidDependency (normaliseDependency dep) :=
  ⟨h.name, isValidSemverConstraint_strip h.version⟩

theorem ValidStep.normalise {step : PipelineStep} (h : ValidStep step) : ValidStep (normaliseStep step) :=
  ⟨(isNonEmpty_strip step.name).trans h.name, h.run⟩

theorem ValidArtifact.normalise_iff {artifact : PipelineArtifact} (h : ValidArtifact artifact) :
    ValidArtifact (normaliseArtifact artifact) ↔ ValidPath (strip artifact.path) :=
  ⟨fun hValid => hValid.path, fun hPath => ⟨h.name, isValidSemver_strip h.version, hPath⟩⟩

def PipelineJob.strippedNames (job : PipelineJob) : List String := job.steps.map fun step => strip step.name

theorem ValidJob.normalise_iff {job : PipelineJob} (h : ValidJob job) :
    ValidJob (normaliseJob job) ↔ job.strippedNames.Nodup := by
  have hNames : (normaliseJob job).steps.map PipelineStep.name = job.strippedNames :=
    List.map_map
  constructor
  · intro hValid
    rw [← hNames]
    exact hValid.distinct
  · intro hDistinct
    refine ⟨h.runtime, h.resources, ?_, ?_, hNames ▸ hDistinct, ?_⟩
    · exact fun hEmpty => h.nonempty (List.map_eq_nil_iff.mp hEmpty)
    · exact List.forall_mem_map.mpr fun step hStep => (h.steps step hStep).normalise
    · exact List.forall_mem_map.mpr fun need hNeed => (isNonEmpty_strip need).trans (h.needs need hNeed)

theorem ValidJobs.normalise_iff {jobs : Dict String PipelineJob} (h : ValidJobs jobs) :
    ValidJobs (jobs.mapValues normaliseJob) ↔ ∀ job ∈ jobs.entries, job.2.strippedNames.Nodup := by
  constructor
  · intro hValid job hJob
    have hEntry := hValid.entries (job.1, normaliseJob job.2) (List.mem_map_of_mem hJob)
    exact (h.entries job hJob).2.normalise_iff.mp hEntry.2
  · intro hDistinct
    refine ⟨fun hEmpty => h.nonempty (List.map_eq_nil_iff.mp hEmpty), ?_, ?_, ?_⟩
    · refine List.forall_mem_map.mpr fun job hJob => ⟨(h.entries job hJob).1, ?_⟩
      exact (h.entries job hJob).2.normalise_iff.mpr (hDistinct job hJob)
    · refine List.forall_mem_map.mpr fun job hJob => List.forall_mem_map.mpr fun need hNeed => ?_
      rw [strip_strip, Dict.keys_mapValues]
      exact h.known job hJob need hNeed
    · refine List.forall_mem_map.mpr fun job hJob => List.forall_mem_map.mpr fun need hNeed => ?_
      rw [strip_strip]
      exact h.others job hJob need hNeed

theorem Pipeline.Valid.normalise_iff {pipeline : Pipeline} (h : pipeline.Valid) : pipeline.normalise.Valid ↔
    (∀ job ∈ pipeline.jobs.entries, job.2.strippedNames.Nodup) ∧
      ∀ artifact ∈ pipeline.artifacts, ValidPath (strip artifact.path) := by
  constructor
  · intro hValid
    refine ⟨h.jobs.normalise_iff.mp hValid.jobs, fun artifact hArtifact => ?_⟩
    exact (h.artifacts artifact hArtifact).normalise_iff.mp
      (hValid.artifacts _ (List.mem_map_of_mem hArtifact))
  · rintro ⟨hDistinct, hPaths⟩
    refine ⟨(isNonEmpty_strip _).trans h.name, isValidSemver_strip h.version, ?_, h.jobs.normalise_iff.mpr hDistinct,
      ?_, ?_⟩
    · exact List.forall_mem_map.mpr fun dep hDep => (h.dependencies dep hDep).normalise
    · exact List.forall_mem_map.mpr fun artifact hArtifact =>
        (h.artifacts artifact hArtifact).normalise_iff.mpr (hPaths artifact hArtifact)
    · refine List.forall_mem_map.mpr fun artifact hArtifact => ?_
      rw [Pipeline.normalise, isProduced_normalise, normaliseArtifact, strip_strip]
      exact h.produced artifact hArtifact

/-! ## The document -/

def textField (item : Value) (key : String) : String :=
  match item.asDict? with
  | some data => (getItem data key).asStr?.getD ""
  | none => ""

def jobItems (data : Dict Key Value) : List (Key × Value) :=
  match (getItem data "jobs").asDict? with
  | some jobs => jobs.entries
  | none => []

def artifactItems (data : Dict Key Value) : List Value := (data.getD (.str "artifacts") (.list [])).asList?.getD []

/-- The names of the steps of a job still differ when they are stripped. -/
def StepNamesStayDistinct (data : Dict Key Value) : Prop :=
  ∀ job ∈ jobItems data, ((stepItems job.2).map fun step => strip (textField step "name")).Nodup

/-- The paths of the artifacts are still relative when they are stripped. -/
def PathsStayRelative (data : Dict Key Value) : Prop :=
  ∀ artifact ∈ artifactItems data, ValidPath (strip (textField artifact "path"))

instance (data : Dict Key Value) : Decidable (StepNamesStayDistinct data) :=
  inferInstanceAs (Decidable (∀ job ∈ jobItems data,
    ((stepItems job.2).map fun step => strip (textField step "name")).Nodup))

instance (data : Dict Key Value) : Decidable (PathsStayRelative data) :=
  inferInstanceAs (Decidable (∀ artifact ∈ artifactItems data, ValidPath (strip (textField artifact "path"))))

theorem textField_eq {item : Value} {data : Dict Key Value} {key s : String} (hData : item.asDict? = some data)
    (h : getItem data key = .str s) : textField item key = s := by
  simp only [textField, hData, h]
  rfl

theorem strippedNames_eq {value : Value} {job : PipelineJob} (h : Described DescribesJob value job) :
    ((stepItems value).map fun step => strip (textField step "name")) = job.strippedNames := by
  obtain ⟨data, hData, hJob⟩ := h
  obtain ⟨items, hItems, hSteps⟩ := hJob.steps
  rw [stepItems_eq hData, hItems]
  refine map_eq_map_of_forall₂ ?_ hSteps
  rintro item step ⟨step, hStep, hRaw⟩
  rw [textField_eq hStep hRaw.name]

theorem Describes.namesStayDistinct_iff {data : Dict Key Value} {pipeline : Pipeline} (h : Describes data pipeline) :
    StepNamesStayDistinct data ↔ ∀ job ∈ pipeline.jobs.entries, job.2.strippedNames.Nodup := by
  obtain ⟨jobs, hData, hJobs⟩ := h.jobs
  have hItems : jobItems data = jobs.entries := by simp only [jobItems, hData]
  have hNames := map_eq_map_of_forall₂ (fun _ _ hEntry => strippedNames_eq hEntry.2) hJobs
  rw [StepNamesStayDistinct, hItems, ← List.forall_mem_map (P := List.Nodup), hNames, List.forall_mem_map]

theorem Describes.listsArtifacts {data : Dict Key Value} {pipeline : Pipeline} (h : Describes data pipeline) :
    List.Forall₂ (Described DescribesArtifact) (artifactItems data) pipeline.artifacts := by
  obtain ⟨hNone, hEmpty⟩ | ⟨items, hItems, hArtifacts⟩ := h.artifacts
  · rw [artifactItems, hNone, hEmpty]
    exact .nil
  · rw [artifactItems, hItems]
    exact hArtifacts

theorem Describes.artifactPaths {data : Dict Key Value} {pipeline : Pipeline} (h : Describes data pipeline) :
    (artifactItems data).map (fun item => textField item "path") = pipeline.artifacts.map PipelineArtifact.path := by
  refine map_eq_map_of_forall₂ ?_ h.listsArtifacts
  rintro item artifact ⟨raw, hData, hRaw⟩
  exact textField_eq hData hRaw.path

theorem Describes.pathsStayRelative_iff {data : Dict Key Value} {pipeline : Pipeline} (h : Describes data pipeline) :
    PathsStayRelative data ↔ ∀ artifact ∈ pipeline.artifacts, ValidPath (strip artifact.path) := by
  rw [PathsStayRelative, ← List.forall_mem_map (P := fun path => ValidPath (strip path)), h.artifactPaths,
    List.forall_mem_map]

/-! ## Parsing twice -/

/-- `parse_and_validate(d)` for an answer. -/
def parseAgain (compose : YamlModule) : Value → Except Exc Value
  | .dict assignments => parseAndValidate compose (.dict assignments)
  | _ => .error .typeError

/-- The answer for an accepted source is accepted itself, and answered by itself, if and only if the names of the
steps stay distinct and the paths of the artifacts stay relative when they are stripped. -/
theorem parse_again_iff {compose : YamlModule} {source : Source} {d : Value}
    (h : parseAndValidate compose source = .ok d) : ∃ data, source.document? compose = some data ∧
      ∀ e, parseAgain compose d = .ok e ↔ e = d ∧ StepNamesStayDistinct data ∧ PathsStayRelative data := by
  obtain ⟨data, raw, hDocument, hRaw, hValid, rfl⟩ := exists_of_parse_ok h
  refine ⟨data, hDocument, fun e => ?_⟩
  rw [hRaw.namesStayDistinct_iff, hRaw.pathsStayRelative_iff, ← hValid.normalise_iff, Pipeline.toDict, parseAgain,
    parse_dict_ok_iff]
  constructor
  · rintro ⟨again, hAgain, hAgainValid, rfl⟩
    cases hAgain.unique (describes_assignments raw.normalise)
    exact ⟨congrArg Pipeline.toDict raw.normalise_idem, hAgainValid⟩
  · rintro ⟨rfl, hNormal⟩
    exact ⟨raw.normalise, describes_assignments raw.normalise, hNormal,
      congrArg Pipeline.toDict raw.normalise_idem.symm⟩

def demoSteps (stepName : String) : Value :=
  .list [.dict [(.str "name", .str "compile"), (.str "run", .str "make > dist/app.zip")],
    .dict [(.str "name", .str stepName), (.str "run", .str "make test")]]

def demoJobs (stepName : String) : Value :=
  .dict [(.str "build", .dict [(.str "runtime", .str "python:3.12"),
    (.str "resources", .dict [(.str "cpu", .str "0.5"), (.str "memory", .str "512Mi")]),
    (.str "steps", demoSteps stepName)])]

/-- A pipeline of one job with two steps and of one artifact. -/
def demoDocument (stepName path : String) : List (Key × Value) :=
  [(.str "name", .str "demo "), (.str "version", .str "1.0.0\n"),
    (.str "dependencies", .list [.dict [(.str "name", .str "lib"), (.str "version", .str " ^1.2.0")]]),
    (.str "jobs", demoJobs stepName),
    (.str "artifacts", .list [.dict [(.str "name", .str "app"), (.str "version", .str "1.0.0"),
      (.str "path", .str path)]])]

def noLoader : YamlModule := fun _ => .ok none

theorem parse_again_demo : ∃ d,
    parseAndValidate noLoader (.dict (demoDocument " test" " ./dist/app.zip")) = .ok d ∧
      parseAgain noLoader d = .ok d := by
  have hOk : (parseAndValidate noLoader (.dict (demoDocument " test" " ./dist/app.zip"))).isOk = true := by
    decide +kernel
  obtain ⟨d, h⟩ := exists_of_isOk hOk
  obtain ⟨data, hDocument, hAgain⟩ := parse_again_iff h
  cases hDocument
  exact ⟨d, h, (hAgain d).mpr ⟨rfl, by decide +kernel, by decide +kernel⟩⟩

theorem rejected_again {compose : YamlModule} {source : Source} (h : (parseAndValidate compose source).isOk = true)
    (hAgain : ((parseAndValidate compose source).bind (parseAgain compose)).isOk = false) :
    ∃ d, parseAndValidate compose source = .ok d ∧ ∀ e, parseAgain compose d ≠ .ok e := by
  obtain ⟨d, hParse⟩ := exists_of_isOk h
  rw [hParse] at hAgain
  exact ⟨d, hParse, ne_ok_of_isOk hAgain⟩

/-- Two names that differ in a blank, and a path whose blank hides that it is absolute. -/
theorem not_parsed_again :
    (∃ d, parseAndValidate noLoader (.dict (demoDocument "compile " "dist/app.zip")) = .ok d ∧
      ∀ e, parseAgain noLoader d ≠ .ok e) ∧
    ∃ d, parseAndValidate noLoader (.dict (demoDocument "test" " /dist/app.zip")) = .ok d ∧
      ∀ e, parseAgain noLoader d ≠ .ok e :=
  ⟨rejected_again (by decide +kernel) (by decide +kernel), rejected_again (by decide +kernel) (by decide +kernel)⟩

end Forge.Engine.PipelineParser
