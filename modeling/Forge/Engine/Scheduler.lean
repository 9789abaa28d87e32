import Forge.Engine.Pipeline

/-! # The DAG scheduler

`engine/scheduler.py`. Loops without a syntactic measure take fuel: a depth-first search is as deep as
there are jobs, Kahn's queue and the levels take each job once, and the marking of dependents follows
the edges of an acyclic graph.
-/
namespace Forge.Engine
open Forge.Python
set_option autoImplicit false

inductive JobStatus where
  | queued
  | running
  | succeeded
  | failed
  | skipped
  deriving DecidableEq, Repr

def JobStatus.value : JobStatus → String
  | .queued => "queued"
  | .running => "running"
  | .succeeded => "succeeded"
  | .failed => "failed"
  | .skipped => "skipped"

structure JobNode where
  name : String
  needs : List String
  dependents : List String := []
  deriving DecidableEq

abbrev Graph := Dict String JobNode

inductive SchedulerExc where
  | valueError (message : String)
  | runtimeError (message : String)
  | outOfFuel
  deriving DecidableEq

abbrev Statuses := Dict String JobStatus

structure DAGScheduler where
  graph : Graph
  sortedJobs : List String
  jobStatuses : Statuses

/-! ## Building the graph -/

def unknownNeed (jobName dep : String) : SchedulerExc :=
  .valueError ("Job '" ++ jobName ++ "' declares need '" ++ dep ++ "', but '" ++ dep ++
    "' is not defined in pipeline")

def addNode (jobs : JobsConfig) (graph : Graph) (entry : String × JobConfig) :
    Except SchedulerExc Graph :=
  match entry.2.needs.find? fun dep => dep ∉ jobs.keys with
  | some dep => .error (unknownNeed entry.1 dep)
  | none => .ok (graph.set entry.1 { name := entry.1, needs := entry.2.needs })

def buildGraph (jobs : JobsConfig) : Except SchedulerExc Graph :=
  jobs.entries.foldlM (addNode jobs) .empty

def Graph.needs (graph : Graph) (job : String) : List String :=
  match graph.get? job with
  | none => []
  | some node => node.needs

def Graph.dependents (graph : Graph) (job : String) : List String :=
  match graph.get? job with
  | none => []
  | some node => node.dependents

def addDependent (graph : Graph) (dep jobName : String) : Graph :=
  match graph.get? dep with
  | none => graph
  | some node => graph.set dep { node with dependents := node.dependents ++ [jobName] }

def computeDependents (graph : Graph) : Graph :=
  graph.entries.foldl
    (fun g entry => entry.2.needs.foldl (fun g dep => addDependent g dep entry.1) g) graph

/-! ## Cycle detection -/

structure DfsState where
  visiting : List String := []
  visited : List String := []
  cyclesFound : List String := []

def dfsEach (dfs : String → DfsState → Except SchedulerExc DfsState) :
    List String → DfsState → Except SchedulerExc DfsState
  | [], st => .ok st
  | dep :: rest, st => (dfs dep st).bind (dfsEach dfs rest)

def dfs (graph : Graph) : Nat → List String → String → DfsState → Except SchedulerExc DfsState
  | 0, _, _, _ => .error .outOfFuel
  | fuel + 1, path, node, st =>
    if node ∈ st.visiting then
      match path.idxOf? node with
      | none => .error (.valueError ("'" ++ node ++ "' is not in list"))
      | some cycleStart =>
        let cycle := path.drop cycleStart ++ [node]
        .ok { st with cyclesFound := st.cyclesFound ++ [" → ".intercalate cycle] }
    else if node ∈ st.visited then .ok st
    else
      let entered := { st with visiting := node :: st.visiting }
      (dfsEach (dfs graph fuel (path ++ [node])) (graph.needs node) entered).map fun st =>
        { st with visiting := st.visiting.erase node, visited := node :: st.visited }

def dfsRoots (graph : Graph) (fuel : Nat) : List String → DfsState → Except SchedulerExc DfsState
  | [], st => .ok st
  | job :: rest, st =>
    if job ∈ st.visited then dfsRoots graph fuel rest st
    else (dfs graph fuel [] job st).bind (dfsRoots graph fuel rest)

def detectCycles (graph : Graph) : Except SchedulerExc Unit :=
  (dfsRoots graph (graph.keys.length + 1) graph.keys {}).bind fun st =>
    if st.cyclesFound = [] then .ok ()
    else .error (.valueError ("Dependency cycles detected: " ++ ", ".intercalate st.cyclesFound))

/-! ## Topological order -/

structure KahnState where
  inDegree : Dict String Int
  queue : List String
  sortedJobs : List String

def release (st : KahnState) (dependent : String) : KahnState :=
  let degree := st.inDegree.getD dependent 0 - 1
  { st with
    inDegree := st.inDegree.set dependent degree
    queue := if degree = 0 then st.queue ++ [dependent] else st.queue }

def kahn (graph : Graph) : Nat → KahnState → Except SchedulerExc (List String)
  | fuel, st =>
    match st.queue with
    | [] => .ok st.sortedJobs
    | job :: queue =>
      match fuel with
      | 0 => .error .outOfFuel
      | fuel + 1 =>
        let popped := { st with queue, sortedJobs := st.sortedJobs ++ [job] }
        kahn graph fuel ((graph.dependents job).foldl release popped)

def inDegrees (graph : Graph) : Dict String Int :=
  .ofList (graph.entries.map fun entry => (entry.1, (entry.2.needs.length : Int)))

def topologicalSort (graph : Graph) : Except SchedulerExc (List String) :=
  let inDegree := inDegrees graph
  let queue := graph.keys.filter fun job => inDegree.getD job 0 = 0
  (kahn graph graph.keys.length ⟨inDegree, queue, []⟩).bind fun sortedJobs =>
    if sortedJobs.length ≠ graph.keys.length then
      .error (.valueError "Cycle detected in DAG (should have been caught earlier)")
    else .ok sortedJobs

def DAGScheduler.new (jobs : JobsConfig) : Except SchedulerExc DAGScheduler := do
  let graph := computeDependents (← buildGraph jobs)
  detectCycles graph
  let sortedJobs ← topologicalSort graph
  .ok ⟨graph, sortedJobs, .ofList (graph.keys.map fun job => (job, .queued))⟩

/-! ## The execution plan -/

def currentLevel (s : DAGScheduler) (processed : List String) : List String :=
  s.sortedJobs.filter fun job =>
    job ∉ processed && (s.graph.needs job).all fun dep => dep ∈ processed

def planFrom (s : DAGScheduler) : Nat → List String → Except SchedulerExc (List (List String))
  | fuel, processed =>
    if processed.length < s.graph.keys.length then
      match currentLevel s processed, fuel with
      | [], _ => .error (.runtimeError "Deadlock in job execution (cyclic dependency?)")
      | _, 0 => .error .outOfFuel
      | level, fuel + 1 => (planFrom s fuel (processed ++ level)).map fun levels => level :: levels
    else .ok []

def DAGScheduler.getExecutionPlan (s : DAGScheduler) : Except SchedulerExc (List (List String)) :=
  planFrom s s.graph.keys.length []

/-! ## Statuses -/

def skipEach (skip : String → Statuses → Option Statuses) : List String → Statuses → Option Statuses
  | [], st => some st
  | dependent :: rest, st =>
    if st.getD dependent .queued = .succeeded then skipEach skip rest st
    else (skip dependent (st.set dependent .skipped)).bind (skipEach skip rest)

/-- `none` when the recursion is deeper than the fuel. -/
def skipDependents (graph : Graph) : Nat → String → Statuses → Option Statuses
  | 0, _, _ => none
  | fuel + 1, job, st => skipEach (skipDependents graph fuel) (graph.dependents job) st

def DAGScheduler.markJobFailed (s : DAGScheduler) (jobName : String) : Option DAGScheduler :=
  (skipDependents s.graph s.graph.keys.length jobName (s.jobStatuses.set jobName .failed)).map
    fun jobStatuses => { s with jobStatuses }

def DAGScheduler.updateJobStatus (s : DAGScheduler) (jobName : String) (status : JobStatus) :
    DAGScheduler :=
  { s with jobStatuses := s.jobStatuses.set jobName status }

def DAGScheduler.getJobStatus (s : DAGScheduler) (jobName : String) : JobStatus :=
  s.jobStatuses.getD jobName .queued

/-- `get_all_statuses`. -/
def DAGScheduler.statuses (s : DAGScheduler) : List (String × String) :=
  s.jobStatuses.entries.map fun entry => (entry.1, entry.2.value)

/-- A three-job chain and a job beside it. -/
example :
    (DAGScheduler.new (.ofList [("deploy", { needs := ["package"] }), ("package", { needs := ["build"] }),
      ("build", {}), ("lint", {})])).bind DAGScheduler.getExecutionPlan =
      .ok [["build", "lint"], ["package"], ["deploy"]] := by rfl

end Forge.Engine
