import Forge.Engine.FieldChecks
import Forge.Python.Search

/-! # Pipelines and the files that their steps name

The typed pipeline of `engine/parser.py`, its dictionary, and the check that each artifact may be the output
of some step.
-/
namespace Forge.Engine.PipelineParser
open Forge.Python Forge.Registry
set_option autoImplicit false

/-! ## Pipelines -/

structure Resources where
  cpu : PyFloat
  memory : String
  deriving DecidableEq

structure PipelineJob where
  runtime : String
  resources : Resources
  steps : List PipelineStep
  needs : List String
  deriving DecidableEq

structure Pipeline where
  name : String
  version : String
  dependencies : List PipelineDependency
  jobs : Dict String PipelineJob
  artifacts : List PipelineArtifact

def stepDict (step : PipelineStep) : Value :=
  .dict [(.str "name", .str step.name), (.str "run", .str step.run)]

def resourcesDict (resources : Resources) : Value :=
  .dict [(.str "cpu", .float resources.cpu), (.str "memory", .str resources.memory)]

def jobDict (job : PipelineJob) : Value :=
  .dict ([(.str "runtime", .str job.runtime), (.str "resources", resourcesDict job.resources),
    (.str "steps", .list (job.steps.map stepDict))] ++
    if job.needs = [] then [] else [(.str "needs", .list (job.needs.map .str))])

def jobItem (job : String × PipelineJob) : Key × Value := (.str job.1, jobDict job.2)

def jobsDict (jobs : Dict String PipelineJob) : Value := .dict (jobs.entries.map jobItem)

def dependencyDict (dep : PipelineDependency) : Value :=
  .dict [(.str "name", .str dep.name), (.str "version", .str dep.version)]

def artifactDict (artifact : PipelineArtifact) : Value :=
  .dict [(.str "name", .str artifact.name), (.str "version", .str artifact.version),
    (.str "path", .str artifact.path)]

/-- The assignments of `to_dict`. -/
def Pipeline.assignments (pipeline : Pipeline) : List (Key × Value) :=
  [(.str "name", .str pipeline.name), (.str "version", .str pipeline.version),
    (.str "dependencies", .list (pipeline.dependencies.map dependencyDict)),
    (.str "jobs", jobsDict pipeline.jobs),
    (.str "artifacts", .list (pipeline.artifacts.map artifactDict))]

def Pipeline.toDict (pipeline : Pipeline) : Value := .dict pipeline.assignments

/-! ## Output hints -/

def isPathChar (c : Char) : Bool := isWordChar c || c == '.' || c == '/' || c == '-'

/-- `\s+` -/
def spaces : Matcher := .plus isSpace

/-- `\S+` -/
def nonSpaces : Matcher := .plus fun c => !isSpace c

/-- `(?:>|tar\s+(?:czf|xzf|cf)\s+|mv\s+\S+\s+|cp\s+\S+\s+)([\w./\-]+\.(?:tar\.gz|tgz|zip|jar|whl|out))` -/
def outputPattern : GroupPattern where
  before := .choice [.literal ">",
    ((((Matcher.literal "tar").seq spaces).seq
      (.choice [.literal "czf", .literal "xzf", .literal "cf"])).seq spaces),
    ((((Matcher.literal "mv").seq spaces).seq nonSpaces).seq spaces),
    ((((Matcher.literal "cp").seq spaces).seq nonSpaces).seq spaces)]
  group := ((Matcher.plus isPathChar).seq (.literal ".")).seq
    (.choice [.literal "tar.gz", .literal "tgz", .literal "zip", .literal "jar", .literal "whl", .literal "out"])
  after := .eps

/-- `['\"](\./[\w./\-]+)['\"]` -/
def quotedPattern : GroupPattern where
  before := .char fun c => c == '\'' || c == '"'
  group := (Matcher.literal "./").seq (.plus isPathChar)
  after := .char fun c => c == '\'' || c == '"'

/-- `path.lstrip("./")` -/
def lstripPath (path : String) : String := lstripChars path ['.', '/']

def collectStepOutputHints (steps : List PipelineStep) : List String :=
  steps.flatMap fun step =>
    ((outputPattern.findGroups step.run) ++ quotedPattern.findGroups step.run).map lstripPath

def normalizedHints (jobs : Dict String PipelineJob) : List String :=
  let allHints := jobs.values.flatMap fun job => collectStepOutputHints job.steps
  allHints.map lstripPath ++ allHints

def baseName (path : String) : String := (splitOn path '/').getLastD ""

/-- The test for `produced`. -/
def isProduced (jobs : Dict String PipelineJob) (path : String) : Bool :=
  let normPath := lstripPath path
  normPath ∈ normalizedHints jobs || baseName normPath ∈ normalizedHints jobs ||
    jobs.values.any fun job => job.steps.any fun step => contains step.run (baseName normPath)

def validateArtifactPaths (artifacts : List PipelineArtifact) (jobs : Dict String PipelineJob) : Except Exc Unit :=
  artifacts.forM fun artifact =>
    if isProduced jobs artifact.path then .ok ()
    else fail ["artifact path '", artifact.path, "' is not produced by any job step"] none

end Forge.Engine.PipelineParser
