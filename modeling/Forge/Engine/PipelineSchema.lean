import Forge.Engine.PipelineParser
import Forge.Theory.Traversal

/-! # The schema of pipelines

What the parser accepts, without its order of checks and its line numbers: a document describes a pipeline
as it is written, the pipeline is valid or not, and what is returned is its normal form.
-/
namespace Forge.Engine.PipelineParser
open Forge.Python Forge.Registry
set_option autoImplicit false

/-! ## Documents -/

def HasKeys (data : Dict Key Value) (allowed required : List String) : Prop :=
  (∀ key ∈ required, Key.str key ∈ data.keys) ∧ ∀ key ∈ data.keys, key ∈ allowed.map Key.str

section
variable {α : Type}

/-- The value is a dictionary with a property. -/
def Described (describes : Dict Key Value → α → Prop) (value : Value) (x : α) : Prop :=
  ∃ data, value.asDict? = some data ∧ describes data x

def DescribesItems (describes : Dict Key Value → α → Prop) (value : Value) (xs : List α) : Prop :=
  ∃ items, value = .list items ∧ List.Forall₂ (Described describes) items xs

end

structure DescribesDependency (data : Dict Key Value) (dep : PipelineDependency) : Prop where
  keys : HasKeys data depKeys requiredDepKeys
  name : getItem data "name" = .str dep.name
  version : getItem data "version" = .str dep.version

structure DescribesArtifact (data : Dict Key Value) (artifact : PipelineArtifact) : Prop where
  keys : HasKeys data artifactKeys requiredArtifactKeys
  name : getItem data "name" = .str artifact.name
  version : getItem data "version" = .str artifact.version
  path : getItem data "path" = .str artifact.path

structure DescribesStep (data : Dict Key Value) (step : PipelineStep) : Prop where
  keys : HasKeys data stepKeys requiredStepKeys
  name : getItem data "name" = .str step.name
  run : getItem data "run" = .str step.run

structure DescribesResources (data : Dict Key Value) (resources : Resources) : Prop where
  keys : HasKeys data resourceKeys resourceKeys
  cpu : (getItem data "cpu").toFloat = .ok resources.cpu
  memory : getItem data "memory" = .str resources.memory

/-- A job without needs may say so or leave them out. -/
def DescribesNeeds : Option Value → List String → Prop
  | none, needs => needs = []
  | some value, needs => value = .list (needs.map .str)

structure DescribesJob (data : Dict Key Value) (job : PipelineJob) : Prop where
  keys : HasKeys data jobKeys requiredJobKeys
  runtime : getItem data "runtime" = .str job.runtime
  resources : Described DescribesResources (getItem data "resources") job.resources
  steps : DescribesItems DescribesStep (getItem data "steps") job.steps
  needs : DescribesNeeds (data.get? (.str "needs")) job.needs

def DescribesEntry (entry : Key × Value) (job : String × PipelineJob) : Prop :=
  entry.1 = .str job.1 ∧ Described DescribesJob entry.2 job.2

def DescribesJobs (data : Dict Key Value) (jobs : Dict String PipelineJob) : Prop :=
  List.Forall₂ DescribesEntry data.entries jobs.entries

/-- A list of the root that may be left out or be null. -/
def DescribesOptional {α : Type} (describes : Dict Key Value → α → Prop) (value : Value) (xs : List α) : Prop :=
  value = .none ∧ xs = [] ∨ DescribesItems describes value xs

structure Describes (data : Dict Key Value) (pipeline : Pipeline) : Prop where
  keys : HasKeys data topLevelKeys requiredTopLevel
  name : getItem data "name" = .str pipeline.name
  version : getItem data "version" = .str pipeline.version
  dependencies : DescribesOptional DescribesDependency (data.getD (.str "dependencies") (.list []))
    pipeline.dependencies
  jobs : Described DescribesJobs (getItem data "jobs") pipeline.jobs
  artifacts : DescribesOptional DescribesArtifact (data.getD (.str "artifacts") (.list [])) pipeline.artifacts

/-! ## Valid pipelines -/

structure ValidDependency (dep : PipelineDependency) : Prop where
  name : packageNamePattern.matchAnchored dep.name = true
  version : isValidSemverConstraint dep.version = true

structure ValidPath (path : String) : Prop where
  nonempty : path ≠ ""
  relative : startsWith path "/" = false
  drive : hasDrive path = false
  parent : ".." ∉ pathParts path

instance (path : String) : Decidable (ValidPath path) :=
  decidable_of_iff (path ≠ "" ∧ startsWith path "/" = false ∧ hasDrive path = false ∧ ".." ∉ pathParts path)
    ⟨fun h => ⟨h.1, h.2.1, h.2.2.1, h.2.2.2⟩, fun h => ⟨h.nonempty, h.relative, h.drive, h.parent⟩⟩

structure ValidArtifact (artifact : PipelineArtifact) : Prop where
  name : packageNamePattern.matchAnchored artifact.name = true
  version : isValidSemverVersion artifact.version = true
  path : ValidPath artifact.path

structure ValidStep (step : PipelineStep) : Prop where
  name : isNonEmpty step.name = true
  run : isNonEmpty step.run = true

structure ValidResources (resources : Resources) : Prop where
  cpu : resources.cpu.nonpos = false
  memory : memoryPattern.matchAnchored resources.memory = true

structure ValidJob (job : PipelineJob) : Prop where
  runtime : job.runtime ≠ "" ∧ imageRefPattern.matchAnchored job.runtime = true
  resources : ValidResources job.resources
  nonempty : job.steps ≠ []
  steps : ∀ step ∈ job.steps, ValidStep step
  distinct : (job.steps.map PipelineStep.name).Nodup
  needs : ∀ need ∈ job.needs, isNonEmpty need = true

def ValidEntry (job : String × PipelineJob) : Prop := isNonEmpty job.1 = true ∧ ValidJob job.2

structure ValidJobs (jobs : Dict String PipelineJob) : Prop where
  nonempty : jobs.entries ≠ []
  entries : ∀ job ∈ jobs.entries, ValidEntry job
  known : ∀ job ∈ jobs.entries, ∀ need ∈ job.2.needs, strip need ∈ jobs.keys
  others : ∀ job ∈ jobs.entries, ∀ need ∈ job.2.needs, strip need ≠ job.1

structure Pipeline.Valid (pipeline : Pipeline) : Prop where
  name : isNonEmpty pipeline.name = true
  version : isValidSemverVersion pipeline.version = true
  dependencies : ∀ dep ∈ pipeline.dependencies, ValidDependency dep
  jobs : ValidJobs pipeline.jobs
  artifacts : ∀ artifact ∈ pipeline.artifacts, ValidArtifact artifact
  produced : ∀ artifact ∈ pipeline.artifacts, isProduced pipeline.jobs (strip artifact.path) = true

/-! ## Normal forms -/

def normaliseDependency (dep : PipelineDependency) : PipelineDependency := { dep with version := strip dep.version }

def normaliseArtifact (artifact : PipelineArtifact) : PipelineArtifact :=
  { artifact with version := strip artifact.version, path := strip artifact.path }

def normaliseStep (step : PipelineStep) : PipelineStep := { step with name := strip step.name }

def normaliseJob (job : PipelineJob) : PipelineJob :=
  { job with steps := job.steps.map normaliseStep, needs := job.needs.map strip }

def Pipeline.normalise (pipeline : Pipeline) : Pipeline where
  name := strip pipeline.name
  version := strip pipeline.version
  dependencies := pipeline.dependencies.map normaliseDependency
  jobs := pipeline.jobs.mapValues normaliseJob
  artifacts := pipeline.artifacts.map normaliseArtifact

/-! ## The dictionary of a pipeline -/

section
variable {items : List (Key × Value)}

theorem hasKeys_ofList (keys : List Key) {allowed required : List String} (hKeys : items.map Prod.fst = keys)
    (hNodup : keys.Nodup) (hRequired : ∀ key ∈ required, Key.str key ∈ keys)
    (hAllowed : ∀ key ∈ keys, key ∈ allowed.map Key.str) : HasKeys (Dict.ofList items) allowed required := by
  subst hKeys
  rw [HasKeys, Dict.keys_ofList hNodup]
  exact ⟨hRequired, hAllowed⟩

end

theorem described_stepDict (step : PipelineStep) : Described DescribesStep (stepDict step) step :=
  ⟨_, rfl, hasKeys_ofList [.str "name", .str "run"] rfl (by decide) (by decide) (by decide), rfl, rfl⟩

theorem described_dependencyDict (dep : PipelineDependency) :
    Described DescribesDependency (dependencyDict dep) dep :=
  ⟨_, rfl, hasKeys_ofList [.str "name", .str "version"] rfl (by decide) (by decide) (by decide), rfl, rfl⟩

theorem described_artifactDict (artifact : PipelineArtifact) :
    Described DescribesArtifact (artifactDict artifact) artifact :=
  ⟨_, rfl, hasKeys_ofList [.str "name", .str "version", .str "path"] rfl (by decide) (by decide) (by decide),
    rfl, rfl, rfl⟩

theorem described_resourcesDict (resources : Resources) :
    Described DescribesResources (resourcesDict resources) resources :=
  ⟨_, rfl, hasKeys_ofList [.str "cpu", .str "memory"] rfl (by decide) (by decide) (by decide), rfl, rfl⟩

theorem describesItems_map {α : Type} {describes : Dict Key Value → α → Prop} {toDict : α → Value}
    (h : ∀ x, Described describes (toDict x) x) (xs : List α) :
    DescribesItems describes (.list (xs.map toDict)) xs :=
  ⟨_, rfl, List.forall₂_map_left_iff.mpr (List.forall₂_same.mpr fun x _ => h x)⟩

theorem described_jobDict (job : PipelineJob) : Described DescribesJob (jobDict job) job := by
  obtain ⟨runtime, resources, steps, needs⟩ := job
  cases needs with
  | nil =>
    exact ⟨_, rfl, hasKeys_ofList [.str "runtime", .str "resources", .str "steps"] rfl (by decide) (by decide)
      (by decide), rfl, described_resourcesDict resources, describesItems_map described_stepDict steps, rfl⟩
  | cons need needs =>
    exact ⟨_, rfl, hasKeys_ofList [.str "runtime", .str "resources", .str "steps", .str "needs"] rfl (by decide)
      (by decide) (by decide), rfl, described_resourcesDict resources,
      describesItems_map described_stepDict steps, rfl⟩

theorem described_jobsDict (jobs : Dict String PipelineJob) : Described DescribesJobs (jobsDict jobs) jobs := by
  have hKeys : ((jobs.entries.map jobItem).map Prod.fst).Nodup := by
    rw [List.map_map, show Prod.fst ∘ jobItem = Key.str ∘ Prod.fst from rfl, ← List.map_map]
    exact jobs.nodup.map fun _ _ => Key.str.inj
  refine ⟨_, rfl, ?_⟩
  rw [DescribesJobs, Dict.entries_ofList hKeys, List.forall₂_map_left_iff, List.forall₂_same]
  exact fun job _ => ⟨rfl, described_jobDict job.2⟩

theorem describes_assignments (pipeline : Pipeline) :
    Describes (Dict.ofList pipeline.assignments) pipeline where
  keys := hasKeys_ofList [.str "name", .str "version", .str "dependencies", .str "jobs", .str "artifacts"] rfl
    (by decide) (by decide) (by decide)
  name := rfl
  version := rfl
  dependencies := .inr (describesItems_map described_dependencyDict pipeline.dependencies)
  jobs := described_jobsDict pipeline.jobs
  artifacts := .inr (describesItems_map described_artifactDict pipeline.artifacts)

/-! ## A document describes one pipeline -/

section
variable {α : Type} {describes : Dict Key Value → α → Prop}

theorem Described.unique (h : ∀ data x y, describes data x → describes data y → x = y) {value : Value} {x y : α}
    (hx : Described describes value x) (hy : Described describes value y) : x = y := by
  obtain ⟨data, hData, hx⟩ := hx
  obtain ⟨_, hData', hy⟩ := hy
  cases hData.symm.trans hData'
  exact h data x y hx hy

theorem DescribesItems.unique (h : ∀ data x y, describes data x → describes data y → x = y) {value : Value}
    {xs ys : List α} (hx : DescribesItems describes value xs) (hy : DescribesItems describes value ys) : xs = ys := by
  obtain ⟨items, hItems, hx⟩ := hx
  obtain ⟨_, hItems', hy⟩ := hy
  cases hItems.symm.trans hItems'
  have hItem : Relator.RightUnique (Described describes) := fun _ _ _ => Described.unique h
  exact List.right_unique_forall₂' hItem hx hy

theorem DescribesOptional.unique (h : ∀ data x y, describes data x → describes data y → x = y) {value : Value}
    {xs ys : List α} (hx : DescribesOptional describes value xs) (hy : DescribesOptional describes value ys) :
    xs = ys := by
  rcases hx with ⟨rfl, rfl⟩ | hx
  · rcases hy with ⟨-, rfl⟩ | ⟨_, hItems, -⟩
    · rfl
    · cases hItems
  · rcases hy with ⟨rfl, rfl⟩ | hy
    · obtain ⟨_, hItems, -⟩ := hx
      cases hItems
    · exact hx.unique h hy

end

theorem str_unique {value : Value} {a b : String} (ha : value = .str a) (hb : value = .str b) : a = b :=
  Value.str.inj (ha.symm.trans hb)

theorem DescribesDependency.unique (data : Dict Key Value) (x y : PipelineDependency)
    (hx : DescribesDependency data x) (hy : DescribesDependency data y) : x = y := by
  cases x
  cases y
  rw [PipelineDependency.mk.injEq]
  exact ⟨str_unique hx.name hy.name, str_unique hx.version hy.version⟩

theorem DescribesArtifact.unique (data : Dict Key Value) (x y : PipelineArtifact)
    (hx : DescribesArtifact data x) (hy : DescribesArtifact data y) : x = y := by
  cases x
  cases y
  rw [PipelineArtifact.mk.injEq]
  exact ⟨str_unique hx.name hy.name, str_unique hx.version hy.version, str_unique hx.path hy.path⟩

theorem DescribesStep.unique (data : Dict Key Value) (x y : PipelineStep) (hx : DescribesStep data x)
    (hy : DescribesStep data y) : x = y := by
  cases x
  cases y
  rw [PipelineStep.mk.injEq]
  exact ⟨str_unique hx.name hy.name, str_unique hx.run hy.run⟩

theorem DescribesResources.unique (data : Dict Key Value) (x y : Resources) (hx : DescribesResources data x)
    (hy : DescribesResources data y) : x = y := by
  cases x
  cases y
  rw [Resources.mk.injEq]
  exact ⟨Except.ok.inj (hx.cpu.symm.trans hy.cpu), str_unique hx.memory hy.memory⟩

theorem DescribesNeeds.unique {value : Option Value} {xs ys : List String} (hx : DescribesNeeds value xs)
    (hy : DescribesNeeds value ys) : xs = ys := by
  cases value with
  | none => exact hx.trans hy.symm
  | some value =>
    have hItems : xs.map Value.str = ys.map Value.str := Value.list.inj (hx.symm.trans hy)
    exact List.map_injective_iff.mpr (fun _ _ => Value.str.inj) hItems

theorem DescribesJob.unique (data : Dict Key Value) (x y : PipelineJob) (hx : DescribesJob data x)
    (hy : DescribesJob data y) : x = y := by
  cases x
  cases y
  rw [PipelineJob.mk.injEq]
  exact ⟨str_unique hx.runtime hy.runtime, hx.resources.unique DescribesResources.unique hy.resources,
    hx.steps.unique DescribesStep.unique hy.steps, hx.needs.unique hy.needs⟩

theorem DescribesJobs.unique (data : Dict Key Value) (x y : Dict String PipelineJob) (hx : DescribesJobs data x)
    (hy : DescribesJobs data y) : x = y := by
  have hEntry : Relator.RightUnique DescribesEntry := by
    rintro ⟨key, value⟩ ⟨name, job⟩ ⟨name', job'⟩ ⟨hName, hJob⟩ ⟨hName', hJob'⟩
    exact Prod.ext (Key.str.inj (hName.symm.trans hName')) (hJob.unique DescribesJob.unique hJob')
  exact Dict.ext_entries (List.right_unique_forall₂' hEntry hx hy)

theorem Describes.unique {data : Dict Key Value} {x y : Pipeline} (hx : Describes data x)
    (hy : Describes data y) : x = y := by
  cases x
  cases y
  rw [Pipeline.mk.injEq]
  exact ⟨str_unique hx.name hy.name, str_unique hx.version hy.version,
    hx.dependencies.unique DescribesDependency.unique hy.dependencies, hx.jobs.unique DescribesJobs.unique hy.jobs,
    hx.artifacts.unique DescribesArtifact.unique hy.artifacts⟩

theorem Pipeline.toDict_injective : Function.Injective Pipeline.toDict := by
  intro pipeline other h
  have hOther := describes_assignments other
  rw [← Value.dict.inj h] at hOther
  exact (describes_assignments pipeline).unique hOther

end Forge.Engine.PipelineParser
