import Forge.Engine.FirstFinds
import Forge.Engine.Levelling
import Forge.Engine.SecondFinds

/-! # Publishing exactly once

Every job that succeeds walks over all artifacts. So in a cooperative world all runs publish each artifact
once exactly when no job can walk after the file of an artifact has been found by another.
-/
namespace Forge.Engine
open Forge.Python Forge.Registry Forge.Theory
set_option autoImplicit false

variable {host : Host} {registry : RegistryClient} {pipeline : PipelineConfig}
  {producer : PipelineArtifact → String} {s t : Execution} {e : Event}

/-! ## The place of the producers -/

theorem Serves.prepares {Ok : Execution → Event → Prop} (hServes : Serves host producer Ok)
    (hKnown : NeedsKnown pipeline.jobs) (hCan : CanComplete host registry pipeline)
    (hAlways : AlwaysPublishesOnce host registry pipeline Ok) :
    (∃ lockfile, Resolves registry pipeline lockfile) ∧ Acyclic (Needs pipeline.jobs) := by
  obtain ⟨events, s, hRun, hEnded⟩ := hServes.ends hKnown hCan (.nil Execution.initial)
  have hPrepared := (hServes.run hKnown hRun).prepared
  rw [Prepared, hEnded] at hPrepared
  obtain ⟨hResolves, scheduler, plan, hPlans⟩ := hPrepared (hAlways events s hRun hEnded).1
  exact ⟨hResolves, DAGScheduler.new_acyclic hKnown hPlans.1⟩

instance (s : Execution) (job : String) : Decidable (s.Underway job) :=
  inferInstanceAs (Decidable (job ∈ s.history.results.keys ∨ s.futures.get? job = some .running))

end Forge.Engine
