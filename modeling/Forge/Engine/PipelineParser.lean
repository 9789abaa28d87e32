import Forge.Engine.OutputHints
import Forge.Engine.YamlNode

/-! # The pipeline parser

`PipelineParser.parse_and_validate` on a text and on a dictionary. The YAML nodes of a text serve for the line
numbers of the errors; they are looked up beside the data at every level, and checked as well.
-/
namespace Forge.Engine.PipelineParser
open Forge.Python Forge.Registry
set_option autoImplicit false

/-! ## Keys -/

def topLevelKeys : List String := ["name", "version", "dependencies", "jobs", "artifacts"]
def requiredTopLevel : List String := ["name", "version", "jobs"]

def jobKeys : List String := ["runtime", "resources", "steps", "needs"]
def requiredJobKeys : List String := ["runtime", "resources", "steps"]

def stepKeys : List String := ["name", "run"]
def requiredStepKeys : List String := ["name", "run"]

def depKeys : List String := ["name", "version"]
def requiredDepKeys : List String := ["name", "version"]

def artifactKeys : List String := ["name", "version", "path"]
def requiredArtifactKeys : List String := ["name", "version", "path"]

def resourceKeys : List String := ["cpu", "memory"]

/-! ## Values -/

def expectDict (value : Value) (message : FString) (line : Nat) : Except Exc (Dict Key Value) :=
  expect value.asDict? message line

/-- `isinstance(value, str)` and a check of the text. -/
def expectStr (value : Value) (check : String → Bool) (message : FString) (line : Nat) : Except Exc String :=
  match value.asStr? with
  | some s => if check s then .ok s else fail message (some line)
  | none => fail message (some line)

def isNonEmpty (s : String) : Bool := strip s != ""

/-- `data[key]`, for a key that has been checked to be there. -/
def getItem (data : Dict Key Value) (key : String) : Value := data.getD (.str key) .none

/-- The check of a mapping on its own level: first the node, then the data. -/
def checkMapping (node : Option Node) (data : Dict Key Value) (allowed required : List String)
    (nodeContext context : FString) (line : Nat) : Except Exc Unit := do
  checkNode node data allowed required nodeContext
  checkKeys data allowed required context line

/-- `for idx, item in enumerate(items)`, the node of an item being the one at its index. -/
def forItems {α β : Type} (parse : β → Option Node → Except Exc α) : List β → List Node → Except Exc (List α)
  | [], _ => .ok []
  | item :: items, nodes => do
    let first ← parse item nodes.head?
    let rest ← forItems parse items nodes.tail
    .ok (first :: rest)

/-- The nodes of a sequence of the root. -/
def itemNodes (root : Option MappingNode) (name : String) : Except Exc (List Node) :=
  match root with
  | none => .ok []
  | some root => do
    let found ← firstValue name root.value
    sequenceNodes found [name]

/-- `_parse_dependencies` and `_parse_artifacts`; null stands for no items. -/
def parseItems {α : Type} (name : String) (parse : Value → Option Node → Except Exc α) (data : Value)
    (root : Option MappingNode) (defaultLine : Nat) : Except Exc (List α) :=
  match data with
  | .none => .ok []
  | .list items => do
    let nodes ← itemNodes root name
    forItems parse items nodes
  | _ => fail ["field '", name, "' must be a sequence"] (some defaultLine)

/-! ## Dependencies -/

def parseDependency (defaultLine : Nat) (item : Value) (node : Option Node) :
    Except Exc PipelineDependency := do
  let line := lineOf node defaultLine
  let data ← expectDict item ["each dependency must be a mapping"] line
  checkMapping node data depKeys requiredDepKeys ["dependency"] ["dependency"] line
  let name ← expectStr (getItem data "name") packageNamePattern.matchAnchored
    ["invalid dependency name '", getItem data "name", "'"] line
  let version ← expectStr (getItem data "version") isValidSemverConstraint
    ["invalid semver constraint '", getItem data "version", "'"] line
  .ok ⟨name, strip version⟩

def parseDependencies (depsData : Value) (root : Option MappingNode) (defaultLine : Nat) :
    Except Exc (List PipelineDependency) :=
  parseItems "dependencies" (parseDependency defaultLine) depsData root defaultLine

/-! ## Steps -/

/-- The step as it is written, its name not yet stripped. -/
def parseStep (jobName : String) (defaultLine : Nat) (stepNames : List String) (item : Value)
    (node : Option Node) : Except Exc PipelineStep := do
  let line := lineOf node defaultLine
  let data ← expectDict item ["job '", jobName, "' step must be a mapping"] line
  checkMapping node data stepKeys requiredStepKeys ["step in job '", jobName, "'"] ["step of job '", jobName, "'"]
    line
  let name ← expectStr (getItem data "name") isNonEmpty
    ["step name in job '", jobName, "' must be a non-empty string"] line
  if name ∈ stepNames then fail ["duplicate step name '", name, "' in job '", jobName, "'"] (some line)
  else
    let run ← expectStr (getItem data "run") isNonEmpty
      ["step run in job '", jobName, "' must be a non-empty string"] line
    .ok ⟨name, run⟩

/-- The loop of `_parse_steps`. -/
def parseStepItems (jobName : String) (defaultLine : Nat) :
    List String → List Value → List Node → Except Exc (List PipelineStep)
  | _, [], _ => .ok []
  | stepNames, item :: items, nodes => do
    let step ← parseStep jobName defaultLine stepNames item nodes.head?
    let steps ← parseStepItems jobName defaultLine (step.name :: stepNames) items nodes.tail
    .ok ({ step with name := strip step.name } :: steps)

def parseSteps (stepsData : Value) (jobNode : Option Node) (jobName : String) (defaultLine : Nat) :
    Except Exc (List PipelineStep) :=
  match stepsData with
  | .list (item :: items) => do
    let found ← jobValue jobNode "steps"
    let nodes ← sequenceNodes found ["steps"]
    parseStepItems jobName defaultLine [] (item :: items) nodes
  | _ => fail ["job '", jobName, "' steps must be a non-empty sequence"] (some defaultLine)

/-! ## Jobs -/

def parseNeed (jobName : String) (line : Nat) (need : Value) : Except Exc String := do
  let text ← expectStr need isNonEmpty ["job '", jobName, "' needs entries must be strings"] line
  .ok (strip text)

def parseNeeds (job : Dict Key Value) (jobName : String) (line : Nat) : Except Exc (List String) :=
  match job.get? (.str "needs") with
  | none => .ok []
  | some (.list items) => items.mapM (parseNeed jobName line)
  | some _ => fail ["job '", jobName, "' needs must be a sequence"] (some line)

def parseResources (resources : Value) (jobNode : Option Node) (jobName : String) (line : Nat) :
    Except Exc Resources := do
  let data ← expectDict resources ["job '", jobName, "' resources must be a mapping"] line
  let node ← jobValue jobNode "resources"
  checkMapping node data resourceKeys resourceKeys ["job '", jobName, "' resources"]
    ["job '", jobName, "' resources"] line
  let cpu ← validateCpu (getItem data "cpu") (some line)
  let memory ← expectStr (getItem data "memory") (fun _ => true) ["job '", jobName, "' memory must be a string"] line
  validateMemory memory (some line)
  .ok ⟨cpu, memory⟩

def expectJobName (key : Key) (line : Nat) : Except Exc String :=
  match key with
  | .str s => if isNonEmpty s then .ok s else fail ["job name must be a non-empty string"] (some line)
  | _ => fail ["job name must be a non-empty string"] (some line)

def parseJob (defaultLine : Nat) (item : Key × Value) (node : Option Node) :
    Except Exc (String × PipelineJob) := do
  let line := lineOf node defaultLine
  let name ← expectJobName item.1 line
  let job ← expectDict item.2 ["job '", name, "' must be a mapping"] line
  checkMapping node job jobKeys requiredJobKeys ["job '", name, "'"] ["job '", name, "'"] line
  let runtime ← expectStr (getItem job "runtime") (fun _ => true) ["job '", name, "' runtime must be a string"] line
  validateImageRef runtime (some line)
  let resources ← parseResources (getItem job "resources") node name line
  let steps ← parseSteps (getItem job "steps") node name line
  let needs ← parseNeeds job name line
  .ok (name, ⟨runtime, resources, steps, needs⟩)

def checkNeed (jobs : Dict String PipelineJob) (defaultLine : Nat) (jobName need : String) : Except Exc Unit :=
  if need ∉ jobs.keys then fail ["job '", jobName, "' needs unknown job '", need, "'"] (some defaultLine)
  else if need = jobName then fail ["job '", jobName, "' cannot depend on itself"] (some defaultLine)
  else .ok ()

def checkNeeds (jobs : Dict String PipelineJob) (defaultLine : Nat) : Except Exc Unit :=
  jobs.entries.forM fun job => job.2.needs.forM (checkNeed jobs defaultLine job.1)

def jobNodes (root : Option MappingNode) : Except Exc (List Node) :=
  match root with
  | none => .ok []
  | some root => do
    let found ← firstValue "jobs" root.value
    match found with
    | none => .ok []
    | some node =>
      let jobs ← expectMapping node ["jobs"]
      .ok (jobs.value.map Prod.snd)

def parseJobs (jobsData : Value) (root : Option MappingNode) (defaultLine : Nat) :
    Except Exc (Dict String PipelineJob) := do
  let data ← expectDict jobsData ["field 'jobs' must be a non-empty mapping"] defaultLine
  if data.entries = [] then fail ["field 'jobs' must be a non-empty mapping"] (some defaultLine)
  else
    let nodes ← jobNodes root
    let items ← forItems (parseJob defaultLine) data.entries nodes
    let jobs := Dict.ofList items
    checkNeeds jobs defaultLine
    .ok jobs

/-! ## Artifacts -/

def parseArtifact (defaultLine : Nat) (item : Value) (node : Option Node) : Except Exc PipelineArtifact := do
  let line := lineOf node defaultLine
  let data ← expectDict item ["each artifact must be a mapping"] line
  checkMapping node data artifactKeys requiredArtifactKeys ["artifact"] ["artifact"] line
  let name ← expectStr (getItem data "name") packageNamePattern.matchAnchored
    ["invalid artifact name '", getItem data "name", "'"] line
  let version ← expectStr (getItem data "version") isValidSemverVersion
    ["artifact version must be valid semver, got '", getItem data "version", "'"] line
  let path ← expectStr (getItem data "path") (fun _ => true) ["artifact path must be a string"] line
  validateRelativePath path (some line)
  .ok ⟨name, strip version, strip path⟩

def parseArtifacts (artifactsData : Value) (root : Option MappingNode) (defaultLine : Nat) :
    Except Exc (List PipelineArtifact) :=
  parseItems "artifacts" (parseArtifact defaultLine) artifactsData root defaultLine

/-! ## The document -/

def validateRootDict (document : Value) (root : Option MappingNode) (rootLine : Nat) : Except Exc Pipeline := do
  let data ← expectDict document ["pipeline root must be a mapping"] rootLine
  checkMapping (root.map MappingNode.node) data topLevelKeys requiredTopLevel ["pipeline"] ["pipeline"] rootLine
  let name ← expectStr (getItem data "name") isNonEmpty ["field 'name' must be a non-empty string"] rootLine
  let version ← expectStr (getItem data "version") isValidSemverVersion
    ["field 'version' must be a valid semver version, got '", getItem data "version", "'"] rootLine
  let dependencies ← parseDependencies (data.getD (.str "dependencies") (.list [])) root rootLine
  let jobs ← parseJobs (getItem data "jobs") root rootLine
  let artifacts ← parseArtifacts (data.getD (.str "artifacts") (.list [])) root rootLine
  validateArtifactPaths artifacts jobs
  .ok ⟨strip name, strip version, dependencies, jobs, artifacts⟩

inductive Source where
  | text (s : String)
  | bytes (bs : ByteArray)
  | dict (assignments : List (Key × Value))

/-- What the YAML loader composes from a text: nothing, or the tree of one document. An error is given by its
text. -/
abbrev YamlModule := String → Except String (Option Node)

def parseText (compose : YamlModule) (source : String) : Except Exc Value :=
  match compose source with
  | .error exc => fail ["invalid YAML: ", exc] none
  | .ok none => fail ["pipeline document is empty"] (some 1)
  | .ok (some rootNode) => do
    match rootNode.asMapping? with
    | none => fail ["pipeline root must be a mapping"] (some rootNode.line)
    | some root =>
      let document ← rootNode.construct
      let pipeline ← validateRootDict document (some root) rootNode.line
      .ok pipeline.toDict

def parseAndValidate (compose : YamlModule) : Source → Except Exc Value
  | .dict assignments => do
    let pipeline ← validateRootDict (.dict assignments) none 1
    .ok pipeline.toDict
  | .bytes bs =>
    match String.fromUTF8? bs with
    | none => .error .unicodeDecodeError
    | some source => parseText compose source
  | .text source => parseText compose source

end Forge.Engine.PipelineParser
