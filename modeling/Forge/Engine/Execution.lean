import Forge.Engine.Scheduler
import Forge.Python.Hashlib
import Forge.Theory.Transition

/-! # The execution of a pipeline

`execute_pipeline` and the workers of its thread pool, `execute_job`, as one transition system. The main
thread and every worker advance one step at a time, so the workers of a level interleave with each other
and with the collection of their results. What lies outside the engine (the bytes and status codes of
HTTP answers, exit codes, the files a job leaves, exceptions of the operating system) comes with the
events.
-/
namespace Forge.Engine
open Forge.Python Forge.Registry Forge.Theory
set_option autoImplicit false

/-- The configured limit, and what the machine can do: the jobs whose log file and container it can
create, and the paths below the workspace at which it can hold a regular file. -/
structure Host where
  concurrencyLimit : Int
  canRun : String → Bool
  canHold : String → Bool

/-! ## The state of a run -/

inductive RunStatus where
  | queued
  | running
  | succeeded
  | failed
  | integrityFailure
  | cycleFailure
  | conflictFailure
  deriving DecidableEq, Repr

/-- The `status` of an entry of `run_state.jobs`. -/
inductive EntryStatus where
  | job (status : JobStatus)
  | integrityFailure
  deriving DecidableEq, Repr

structure PublishedArtifact where
  name : String
  version : String
  sha256 : String
  deriving DecidableEq

structure JobEntry where
  status : EntryStatus
  exitCode : Option Int
  artifacts : Option (List PublishedArtifact) := none
  deriving DecidableEq

structure RunState where
  status : RunStatus := .queued
  jobs : Dict String JobEntry := .empty
  lockfile : Option Lockfile := none
  completedAt : Option String := none
  error : Option String := none

def skippedEntry : JobEntry := { status := .job .skipped, exitCode := none }

def integrityEntry : JobEntry := { status := .integrityFailure, exitCode := some 1 }

/-! ## Jobs -/

/-- What `run_job` returns. Its status is `succeeded` exactly when the exit code is 0. -/
structure JobResult where
  exitCode : Int
  deriving DecidableEq

def JobResult.status (result : JobResult) : JobStatus :=
  if result.exitCode = 0 then .succeeded else .failed

inductive JobExc where
  | integrityError (name version expected actual : String)
  | exception (message : String)
  deriving DecidableEq

structure DepInfo where
  version : String
  sha256 : String
  deriving DecidableEq

abbrev DepPull := String × DepInfo

def lockfileAsDepsDict (lockfile : Lockfile) : Dict String DepInfo :=
  .ofList (lockfile.packages.map fun pkg => (pkg.name, ⟨pkg.version, pkg.sha256⟩))

/-- The packages that a job pulls, in order. -/
def depsOf (lockfile : Option Lockfile) : List DepPull :=
  match lockfile with
  | none => []
  | some lockfile => (lockfileAsDepsDict lockfile).entries

/-- The body of the loop of `pull_deps`, for an answer of the registry. -/
def pullDep (dep : DepPull) (statusCode : Nat) (content : Bytes) : Except JobExc Unit :=
  if statusCode ≠ 200 then
    .error (.exception ("failed to fetch " ++ dep.1 ++ "@" ++ dep.2.version ++ ": HTTP " ++
      toString statusCode))
  else if sha256 content ≠ dep.2.sha256 then
    .error (.integrityError dep.1 dep.2.version dep.2.sha256 (sha256 content))
  else .ok ()

/-- The path of an artifact below the workspace. -/
def relPath (artifact : PipelineArtifact) : String := lstripChars artifact.path ['.', '/']

/-- The status codes that `publish_artifact` takes for success. -/
def Created (statusCode : Nat) : Prop := statusCode = 200 ∨ statusCode = 201

instance (statusCode : Nat) : Decidable (Created statusCode) :=
  inferInstanceAs (Decidable (statusCode = 200 ∨ statusCode = 201))

/-- `publish_artifact`, once the registry has answered. -/
def publishArtifact (artifact : PipelineArtifact) (data : Bytes) (statusCode : Nat) (text : String) :
    Except JobExc PublishedArtifact :=
  if Created statusCode then .ok ⟨artifact.name, artifact.version, sha256 data⟩
  else .error (.exception ("publish failed: " ++ toString statusCode ++ " " ++ text))

/-- Where a call of `execute_job` stands. In `posting` the request is on its way to the registry, in
`answered` the registry has handled it and its answer is on the way back. -/
inductive Worker where
  | queued
  | pulling (deps : List DepPull)
  | running
  | walking (artifacts : List PipelineArtifact) (published : List PublishedArtifact)
  | posting (artifact : PipelineArtifact) (data : Bytes) (artifacts : List PipelineArtifact)
      (published : List PublishedArtifact)
  | answered (artifact : PipelineArtifact) (data : Bytes) (statusCode : Nat) (text : String)
      (artifacts : List PipelineArtifact) (published : List PublishedArtifact)
  | returned (result : JobResult) (published : List PublishedArtifact)
  | raised (exc : JobExc)
  deriving DecidableEq

def Worker.isQueued : Worker → Bool
  | .queued => true
  | _ => false

def Worker.isDone : Worker → Bool
  | .returned _ _ => true
  | .raised _ => true
  | _ => false

/-- Whether a thread of the pool is at work on the call. -/
def Worker.isActive (worker : Worker) : Bool := !worker.isQueued && !worker.isDone

/-- One step of a worker, with what it meets outside the engine. An event that comes from outside may also
stay out: a container whose command goes on for ever never exits. -/
inductive Action where
  | start
  | pull (statusCode : Nat) (content : Bytes)
  | launch
  | exit (exitCode : Int)
  | lookup (file : Option Bytes)
  | handle (statusCode : Nat) (text : String)
  | receive
  | finish
  | raise (message : String)
  deriving DecidableEq

def executeJob (host : Host) (pipeline : PipelineConfig) (lockfile : Option Lockfile) (job : String)
    (worker : Worker) : Action → Option Worker
  | .start =>
    match worker with
    | .queued => some (.pulling (depsOf lockfile))
    | _ => none
  | .pull statusCode content =>
    match worker with
    | .pulling (dep :: rest) =>
      match pullDep dep statusCode content with
      | .error exc => some (.raised exc)
      | .ok () => some (.pulling rest)
    | _ => none
  | .launch =>
    match worker with
    | .pulling [] => if host.canRun job then some .running else none
    | _ => none
  | .exit exitCode =>
    match worker with
    | .running =>
      some (if exitCode = 0 then .walking pipeline.artifacts [] else .returned ⟨exitCode⟩ [])
    | _ => none
  | .lookup file =>
    match worker with
    | .walking (artifact :: rest) published =>
      match file with
      | none => some (.walking rest published)
      | some data =>
        if host.canHold (relPath artifact) then some (.posting artifact data rest published) else none
    | _ => none
  | .handle statusCode text =>
    match worker with
    | .posting artifact data rest published =>
      some (.answered artifact data statusCode text rest published)
    | _ => none
  | .receive =>
    match worker with
    | .answered artifact data statusCode text rest published =>
      match publishArtifact artifact data statusCode text with
      | .error exc => some (.raised exc)
      | .ok pub => some (.walking rest (published ++ [pub]))
    | _ => none
  | .finish =>
    match worker with
    | .walking [] published => some (.returned ⟨0⟩ published)
    | _ => none
  | .raise message => if worker.isActive then some (.raised (.exception message)) else none

/-! ## The main thread -/

/-- Where `execute_pipeline` stands: before the resolution, before the plan, between two levels, in the
loop that submits a level, in the loop over `as_completed`, on the way out with an exception, at the
end. -/
inductive Main where
  | queued
  | resolved
  | levels (scheduler : DAGScheduler) (rest : List (List String)) (integrityFailed : Bool)
  | submitting (scheduler : DAGScheduler) (todo : List String) (rest : List (List String))
  | collecting (scheduler : DAGScheduler) (rest : List (List String)) (integrityFailed : Bool)
  | aborting (error : String)
  | ended

/-- What has happened outside the engine: the results of the containers, the coordinates of the files
that workers found, and those that the registry accepted and rejected. -/
structure History where
  results : Dict String JobResult := .empty
  found : List (String × String) := []
  accepted : List (String × String) := []
  rejected : List (String × String) := []

structure Execution where
  run : RunState := {}
  main : Main := .queued
  futures : Dict String Worker := .empty
  collected : List String := []
  history : History := {}

def Execution.initial : Execution := {}

def History.record (history : History) (job : String) (worker : Worker) (action : Action) : History :=
  match worker, action with
  | .running, .exit exitCode => { history with results := history.results.set job ⟨exitCode⟩ }
  | .walking (artifact :: _) _, .lookup (some _) =>
    { history with found := history.found ++ [artifact.coordinate] }
  | .posting artifact _ _ _, .handle statusCode _ =>
    if Created statusCode then
      { history with accepted := history.accepted ++ [artifact.coordinate] }
    else { history with rejected := history.rejected ++ [artifact.coordinate] }
  | _, _ => history

def Execution.activeCount (s : Execution) : Nat := s.futures.values.countP Worker.isActive

/-- The pool starts calls in the order of their submission. -/
def Execution.nextQueued (s : Execution) : Option String :=
  (s.futures.entries.find? fun entry => entry.2.isQueued).map Prod.fst

def Execution.poolAllows (host : Host) (s : Execution) (job : String) : Action → Bool
  | .start => s.nextQueued = some job && (s.activeCount : Int) < host.concurrencyLimit
  | _ => true

/-- The assignments of the status and of the error, in this order. -/
def Execution.ends (s : Execution) (status : RunStatus) (error : Option String) : Execution :=
  { s with run := { s.run with status, error }, main := .ended }

def Execution.aborts (s : Execution) (error : String) : Execution := { s with main := .aborting error }

def SchedulerExc.message : SchedulerExc → String
  | .valueError message => message
  | .runtimeError message => message
  | .outOfFuel => ""

/-- The resolution and the exceptions that its `try` statement sorts out. -/
def Execution.resolve (registry : RegistryClient) (pipeline : PipelineConfig) (s : Execution) :
    Execution :=
  match Registry.resolve registry pipeline.dependencies with
  | .ok lockfile => { s with run := { s.run with lockfile := some lockfile }, main := .resolved }
  | .error (exc, _) =>
    match exc with
    | .cycleError _ => s.ends .cycleFailure (some exc.message)
    | .conflictError _ _ _ => s.ends .conflictFailure (some exc.message)
    | .packageNotFoundError _ => s.ends .conflictFailure (some exc.message)
    | _ => s.aborts exc.message

def Execution.plan (pipeline : PipelineConfig) (s : Execution) : Execution :=
  match DAGScheduler.new pipeline.jobs with
  | .error (.valueError message) => s.ends .cycleFailure (some message)
  | .error exc => s.aborts exc.message
  | .ok scheduler =>
    match scheduler.getExecutionPlan with
    | .error exc => s.aborts exc.message
    | .ok executionPlan =>
      { s with run := { s.run with status := .running }, main := .levels scheduler executionPlan false }

def setSkipped (jobs : Dict String JobEntry) (job : String) : Dict String JobEntry :=
  if job ∈ jobs.keys then jobs else jobs.set job skippedEntry

/-- The start of an iteration over `execution_plan`. -/
def Execution.enterLevel (host : Host) (s : Execution) (scheduler : DAGScheduler) (level : List String)
    (rest : List (List String)) (integrityFailed : Bool) : Execution :=
  if integrityFailed then
    { s with run := { s.run with jobs := level.foldl setSkipped s.run.jobs }
             main := .levels scheduler rest true }
  else if host.concurrencyLimit ≤ 0 then s.aborts "max_workers must be greater than 0"
  else { s with main := .submitting scheduler level rest, futures := .empty, collected := [] }

def Execution.submit (pipeline : PipelineConfig) (s : Execution) (scheduler : DAGScheduler)
    (job : String) (todo : List String) (rest : List (List String)) : Execution :=
  if scheduler.getJobStatus job = .skipped then
    { s with run := { s.run with jobs := s.run.jobs.set job skippedEntry }
             main := .submitting scheduler todo rest }
  else if job ∉ pipeline.jobs.keys then s.aborts ("'" ++ job ++ "'")
  else { s with main := .submitting scheduler todo rest, futures := s.futures.set job .queued }

def recursionError : String := "maximum recursion depth exceeded"

/-- The loop over `get_all_statuses` that copies the skipped jobs. -/
def copySkipped (scheduler : DAGScheduler) (jobs : Dict String JobEntry) : Dict String JobEntry :=
  (scheduler.statuses.filter fun entry => entry.2 = "skipped").foldl
    (fun jobs entry => setSkipped jobs entry.1) jobs

def Execution.collectIntegrityError (s : Execution) (scheduler : DAGScheduler)
    (rest : List (List String)) (job : String) : Execution :=
  let s := { s with run := { s.run with jobs := s.run.jobs.set job integrityEntry } }
  match scheduler.markJobFailed job with
  | none => s.aborts recursionError
  | some scheduler => { s with main := .collecting scheduler rest true }

def Execution.collectResult (s : Execution) (scheduler : DAGScheduler) (rest : List (List String))
    (integrityFailed : Bool) (job : String) (result : JobResult)
    (published : List PublishedArtifact) : Execution :=
  let jobs := s.run.jobs.set job
    { status := .job result.status, exitCode := some result.exitCode, artifacts := some published }
  let scheduler := scheduler.updateJobStatus job result.status
  match if result.status = .failed then scheduler.markJobFailed job else some scheduler with
  | none => { s with run := { s.run with jobs } }.aborts recursionError
  | some scheduler =>
    { s with run := { s.run with jobs := copySkipped scheduler jobs }
             main := .collecting scheduler rest integrityFailed }

/-- The body of the loop over `as_completed`; `none` while the future is not done. -/
def Execution.collect (s : Execution) (scheduler : DAGScheduler) (rest : List (List String))
    (integrityFailed : Bool) (job : String) : Option Execution :=
  let s := { s with collected := job :: s.collected }
  match s.futures.get? job with
  | some (.returned result published) =>
    some (s.collectResult scheduler rest integrityFailed job result published)
  | some (.raised (.integrityError _ _ _ _)) => some (s.collectIntegrityError scheduler rest job)
  | some (.raised (.exception message)) => some (s.aborts message)
  | _ => none

/-- The status of the run from those of its jobs. -/
def finalStatus (integrityFailed : Bool) (statuses : List EntryStatus) : RunStatus :=
  if integrityFailed ∨ .integrityFailure ∈ statuses then .integrityFailure
  else if .job .failed ∈ statuses then .failed
  else .succeeded

/-- The assignments of the status and of the time, in this order. -/
def Execution.finish (s : Execution) (integrityFailed : Bool) (now : String) : Execution :=
  let status := finalStatus integrityFailed (s.run.jobs.values.map JobEntry.status)
  { s with run := { s.run with status, completedAt := some now }, main := .ended }

/-! ## The transition system -/

/-- `interrupt` is an exception that the main thread meets in one of its own calls. -/
inductive Event where
  | resolve
  | plan
  | enterLevel
  | submit
  | work (job : String) (action : Action)
  | collect (job : String)
  | closePool
  | abort
  | finish (now : String)
  | interrupt (message : String)
  deriving DecidableEq

def Execution.work (host : Host) (pipeline : PipelineConfig) (s : Execution) (job : String)
    (action : Action) : Option Execution :=
  match s.futures.get? job with
  | none => none
  | some worker =>
    if s.poolAllows host job action then
      (executeJob host pipeline s.run.lockfile job worker action).map fun worker' =>
        { s with futures := s.futures.set job worker'
                 history := s.history.record job worker action }
    else none

/-- Whether the exit from the pool has nothing to wait for. -/
def Execution.idle (s : Execution) : Bool := s.futures.values.all Worker.isDone

def Main.isEnded : Main → Bool
  | .ended => true
  | _ => false

def Main.isAborting : Main → Bool
  | .aborting _ => true
  | _ => false

def executePipeline (host : Host) (registry : RegistryClient) (pipeline : PipelineConfig)
    (s : Execution) : Event → Option Execution
  | .resolve =>
    match s.main with
    | .queued => some (s.resolve registry pipeline)
    | _ => none
  | .plan =>
    match s.main with
    | .resolved => some (s.plan pipeline)
    | _ => none
  | .enterLevel =>
    match s.main with
    | .levels scheduler (level :: rest) integrityFailed =>
      some (s.enterLevel host scheduler level rest integrityFailed)
    | _ => none
  | .submit =>
    match s.main with
    | .submitting scheduler (job :: todo) rest => some (s.submit pipeline scheduler job todo rest)
    | .submitting scheduler [] rest => some { s with main := .collecting scheduler rest false }
    | _ => none
  | .work job action => s.work host pipeline job action
  | .collect job =>
    match s.main with
    | .collecting scheduler rest integrityFailed =>
      if job ∈ s.collected then none else s.collect scheduler rest integrityFailed job
    | _ => none
  | .closePool =>
    match s.main with
    | .collecting scheduler rest integrityFailed =>
      if s.futures.keys.all fun job => job ∈ s.collected then
        some { s with main := .levels scheduler rest integrityFailed }
      else none
    | _ => none
  | .abort =>
    match s.main with
    | .aborting error => if s.idle then some (s.ends .failed (some error)) else none
    | _ => none
  | .finish now =>
    match s.main with
    | .levels _ [] integrityFailed => some (s.finish integrityFailed now)
    | _ => none
  | .interrupt message =>
    if s.main.isEnded || s.main.isAborting then none else some (s.aborts message)

def Execution.Step (host : Host) (registry : RegistryClient) (pipeline : PipelineConfig) :
    Execution → Event → Execution → Prop :=
  stepsOf (executePipeline host registry pipeline)

end Forge.Engine
