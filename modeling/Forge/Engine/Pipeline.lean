import Forge.Registry.Resolver

/-! # Pipelines

The dictionary that `PipelineParser.parse_and_validate` returns, as far as the scheduler and the engine
read it.
-/
namespace Forge.Engine
open Forge.Python Forge.Registry
set_option autoImplicit false

structure PipelineStep where
  name : String
  run : String
  deriving DecidableEq

structure JobConfig where
  steps : List PipelineStep := []
  needs : List String := []
  deriving DecidableEq

structure PipelineArtifact where
  name : String
  version : String
  path : String
  deriving DecidableEq

def PipelineArtifact.coordinate (artifact : PipelineArtifact) : String × String :=
  (artifact.name, artifact.version)

abbrev JobsConfig := Dict String JobConfig

structure PipelineConfig where
  name : String
  version : String
  dependencies : List DepEntry
  jobs : JobsConfig
  artifacts : List PipelineArtifact

def needsOf (jobs : JobsConfig) (job : String) : List String :=
  match jobs.get? job with
  | none => []
  | some config => config.needs

/-- `job` declares the need `dep`. -/
def Needs (jobs : JobsConfig) (job dep : String) : Prop := dep ∈ needsOf jobs job

/-- Every need names a job, as the parser checks. -/
def NeedsKnown (jobs : JobsConfig) : Prop :=
  ∀ job dep, Needs jobs job dep → dep ∈ jobs.keys

theorem Needs.mem_keys {jobs : JobsConfig} {job dep : String} (h : Needs jobs job dep) :
    job ∈ jobs.keys := by
  unfold Needs needsOf at h
  cases hGet : jobs.get? job with
  | none => simp [hGet] at h
  | some config => exact Dict.mem_keys_of_get? hGet

end Forge.Engine
