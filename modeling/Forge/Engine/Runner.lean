import Forge.Engine.Execution
import Forge.Engine.Memory
import Forge.Python.Utf8

/-! # The job runner

`run_job` and `_exec_step` of `engine/runner.py`. What Docker does, and what `time.time()` returns, comes as a
trace: for each step the reading before it, the chunks of its output with the reading at each, its completion,
and what the inspections report afterwards. The removal of the container at the end has no effect on the result
and is left out.
-/
namespace Forge.Engine
open Forge.Python
set_option autoImplicit false

structure DockerJobRunner where
  storageRoot : String
  maxJobDurationSec : Int := 1800

namespace DockerJobRunner

structure JobResult where
  jobName : String
  exitCode : Int
  status : JobStatus
  logPath : String
  artifacts : List String
  durationSeconds : ℚ

structure StepDict where
  name : Option String := none
  run : Option String := none

structure ResourcesDict where
  cpu : Option PyFloat := none
  memory : Option String := none

structure JobDict where
  runtime : Option String := none
  resources : Option ResourcesDict := none
  steps : Option (List StepDict) := none

/-! ## Docker -/

structure OutputChunk where
  clock : ℚ
  stdout : Option (List UInt8) := none
  stderr : Option (List UInt8) := none

/-- A step that is executed. The exit code is absent while Docker has recorded none. -/
structure StepExec where
  clock : ℚ
  output : List OutputChunk := []
  completedAt : ℚ
  exitCode : Option Int
  oomKilled : Bool := false

/-- What `run_job` lets pass. -/
inductive RunExc where
  | numberError (error : NumberError)
  | dockerError (message : String)

inductive DockerExc where
  | containerError
  | other (message : String)

/-- `container` stands for the image and for the creation and the start of the container. -/
structure Docker where
  startTime : ℚ
  container : String → PyFloat → Int → Except DockerExc Unit
  exec : Nat → StepExec
  endTime : ℚ

/-! ## Steps -/

def entry (stepName line : String) : String := "[" ++ stepName ++ "] " ++ line

def chunkEntries (stepName : String) (chunk : List UInt8) : List String :=
  if chunk = [] then []
  else (splitLines (String.ofList (decodeReplace chunk))).map (entry stepName)

/-- The lines that are passed to the callback, and whether the deadline has passed. -/
def readOutput (deadline : ℚ) (stepName : String) : List OutputChunk → List String × Bool
  | [] => ([], false)
  | chunk :: rest =>
    if deadline < chunk.clock then ([entry stepName "Job timed out"], true)
    else
      let later := readOutput deadline stepName rest
      ((chunk.stdout.toList ++ chunk.stderr.toList).flatMap (chunkEntries stepName) ++ later.1, later.2)

structure ExecResult where
  exitCode : Int
  oomKilled : Bool
  logged : List String

/-- `_exec_step` -/
def execStep (deadline : ℚ) (stepName : String) (exec : StepExec) : ExecResult :=
  let output := readOutput deadline stepName exec.output
  if output.2 then ⟨124, false, output.1⟩
  else ⟨exec.exitCode.getD 0, exec.oomKilled, output.1 ++
    if exec.oomKilled then [entry stepName "OOM killed — container exceeded memory limit"] else []⟩

structure StartedStep where
  index : Nat
  command : String
  clock : ℚ

structure StepsRun where
  exitCode : Int
  status : JobStatus
  logged : List String := []
  started : List StartedStep := []

def StepDict.nameAt (step : StepDict) (index : Nat) : String := step.name.getD ("step_" ++ toString index)

def StepDict.startedAt (step : StepDict) (index : Nat) (exec : StepExec) : StartedStep :=
  ⟨index, step.run.getD "", exec.clock⟩

/-- The result after the loop. -/
def finish (exitCode : Int) : StepsRun :=
  { exitCode, status := if exitCode = 0 then .succeeded else .failed }

def StepsRun.after (run : StepsRun) (started : StartedStep) (logged : List String) : StepsRun :=
  { run with logged := logged ++ run.logged, started := started :: run.started }

/-- The loop over the steps, from the one with this index on. -/
def runSteps (self : DockerJobRunner) (memoryLimit : String) (deadline : ℚ) (exec : Nat → StepExec) :
    Nat → List StepDict → StepsRun
  | _, [] => finish 0
  | index, step :: rest =>
    let stepName := step.nameAt index
    if deadline - (exec index).clock ≤ 0 then
      { exitCode := 124, status := .failed,
        logged := [entry stepName ("Job timed out after " ++ toString self.maxJobDurationSec ++ "s")] }
    else
      let result := execStep deadline stepName (exec index)
      let started := step.startedAt index (exec index)
      if result.oomKilled then
        { exitCode := 137, status := .failed, started := [started], logged := result.logged ++
            [entry stepName ("OOM killed — memory limit " ++ memoryLimit ++ " exceeded")] }
      else if result.exitCode ≠ 0 then (finish result.exitCode).after started result.logged
      else (runSteps self memoryLimit deadline exec (index + 1) rest).after started result.logged

/-! ## Jobs -/

structure JobRun where
  result : JobResult
  logged : List String
  started : List StartedStep

def deadline (self : DockerJobRunner) (docker : Docker) : ℚ := docker.startTime + self.maxJobDurationSec

def logPath (self : DockerJobRunner) (jobName : String) : String :=
  String.ofList (self.storageRoot.toList.rdropWhile (· == '/')) ++ "/logs/" ++ jobName ++ ".log"

def jobRun (self : DockerJobRunner) (docker : Docker) (jobName : String) (run : StepsRun) : JobRun where
  result := ⟨jobName, run.exitCode, run.status, self.logPath jobName, [], docker.endTime - docker.startTime⟩
  logged := run.logged
  started := run.started

def JobDict.memoryLimit (job : JobDict) : String := (job.resources.getD {}).memory.getD "512Mi"

def JobDict.cpuLimit (job : JobDict) : PyFloat := (job.resources.getD {}).cpu.getD (.finite 1)

def runJob (self : DockerJobRunner) (docker : Docker) (jobName : String) (job : JobDict) : Except RunExc JobRun :=
  match parseMemory job.memoryLimit with
  | .error error => .error (.numberError error)
  | .ok memoryBytes =>
    match docker.container (job.runtime.getD "alpine:3.18") job.cpuLimit memoryBytes with
    | .error .containerError => .ok (self.jobRun docker jobName { exitCode := 1, status := .failed })
    | .error (.other message) => .error (.dockerError message)
    | .ok () =>
      .ok (self.jobRun docker jobName
        (self.runSteps job.memoryLimit (self.deadline docker) docker.exec 0 (job.steps.getD [])))

end DockerJobRunner

end Forge.Engine
