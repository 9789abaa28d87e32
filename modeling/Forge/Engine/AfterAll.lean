import Forge.Engine.EarlyRequests

/-! # Publishing after all jobs

A publish request leaves a worker as soon as its own job has exited 0, while other jobs may still run or
wait. It comes after all of them only where there is at most one job, and that job fails after its first
publish where the registry refuses a later one.
-/
namespace Forge.Engine
open Forge.Python Forge.Registry Forge.Theory
set_option autoImplicit false

variable {host : Host} {registry : RegistryClient} {pipeline : PipelineConfig}

def soloPipeline : PipelineConfig :=
  ⟨"solo", "1.0.0", [], .ofList [("build", { steps := [⟨"compile", "make"⟩] })], [appArtifact]⟩

end Forge.Engine
