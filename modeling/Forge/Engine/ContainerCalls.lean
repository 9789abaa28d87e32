import Forge.Engine.RunnerOutcome
import Forge.Theory.Transition

/-! # The calls of a job to Docker

`run_job` call by call, where every call may raise. The container is created once, used between its start and its
stop, and removed in the `finally` statement. When nothing raises, the job comes to what `runJob` says.
-/
namespace Forge.Engine.DockerJobRunner
open Forge.Python Forge.Theory
set_option autoImplicit false

/-- `create` stands for `_create_container`. -/
inductive Call where
  | getImage (image : String)
  | pullImage (image : String)
  | create (image : String) (cpuLimit : PyFloat) (memoryBytes : Int)
  | start
  | execCreate (command : String)
  | execStart
  | kill
  | execInspect
  | reload
  | stop
  | remove

/-- What `run_job` returns or raises, before the container is cleaned up. -/
inductive Ending where
  | result (exitCode : Int) (status : JobStatus)
  | raised (exc : RunExc)

/-- Where a call of `run_job` stands. -/
inductive Phase where
  | configuring
  | gettingImage (memoryBytes : Int)
  | pullingImage (memoryBytes : Int)
  | creating (memoryBytes : Int)
  | starting
  | choosing (index : Nat) (step : StepDict) (rest : List StepDict)
  | execCreating (index : Nat) (step : StepDict) (rest : List StepDict)
  | execStarting (index : Nat) (step : StepDict) (rest : List StepDict)
  | reading (index : Nat) (step : StepDict) (rest : List StepDict)
  | killing (index : Nat) (step : StepDict)
  | inspecting (index : Nat) (step : StepDict) (rest : List StepDict)
  | reloading (index : Nat) (step : StepDict) (rest : List StepDict) (exitCode : Int)
  | stopping (ending : Ending)
  | removing (ending : Ending)
  | done (ending : Ending)

/-- `calls` tells of each call whether it has returned. -/
structure ContainerRun where
  phase : Phase := .configuring
  calls : List (Call × Bool) := []
  logged : List String := []
  started : List StartedStep := []

def ContainerRun.initial : ContainerRun := {}

/-- What `run_job` meets: the outcome of the call that it waits for, a reading of the clock, a part of the output,
or an exception. The callback for log lines may raise one as well, after it has taken some of the lines that are
passed to it upon an answer. -/
inductive Answer where
  | proceeds
  | returns
  | imageNotFound
  | raises (exc : DockerExc)
  | clock (now : ℚ)
  | output (chunk : OutputChunk)
  | outputEnd
  | exitCode (code : Option Int)
  | oomKilled (killed : Bool)
  | logRaises (answer : Answer) (taken : Nat) (exc : DockerExc)

def JobDict.image (job : JobDict) : String := job.runtime.getD "alpine:3.18"

/-- The call that is waited for. -/
def Phase.call (job : JobDict) : Phase → Option Call
  | .gettingImage _ => some (.getImage job.image)
  | .pullingImage _ => some (.pullImage job.image)
  | .creating memoryBytes => some (.create job.image job.cpuLimit memoryBytes)
  | .starting => some .start
  | .execCreating _ step _ => some (.execCreate (step.run.getD ""))
  | .execStarting _ _ _ => some .execStart
  | .killing _ _ => some .kill
  | .inspecting _ _ _ => some .execInspect
  | .reloading _ _ _ _ => some .reload
  | .stopping _ => some .stop
  | .removing _ => some .remove
  | _ => none

/-- The head of the loop over the steps. -/
def loop (index : Nat) : List StepDict → Phase
  | [] => .stopping (.result 0 .succeeded)
  | step :: rest => .choosing index step rest

def DockerExc.ending : DockerExc → Ending
  | .containerError => .result 1 .failed
  | .other message => .raised (.dockerError message)

/-- Where an exception leads. -/
def Phase.interrupted (exc : DockerExc) : Phase → Option Phase
  | .configuring => none
  | .gettingImage _ => some (.done exc.ending)
  | .pullingImage _ => some (.done exc.ending)
  | .creating _ => some (.done exc.ending)
  | .stopping ending => some (.done ending)
  | .removing ending => some (.done ending)
  | .done _ => none
  | _ => some (.stopping exc.ending)

/-- Where the callback for log lines is called. -/
def Phase.logs : Phase → Bool
  | .choosing _ _ _ => true
  | .reading _ _ _ => true
  | .killing _ _ => true
  | .reloading _ _ _ _ => true
  | _ => false

section
variable (self : DockerJobRunner) (deadline : ℚ) (job : JobDict)

/-- The next phase, and the lines that the callback takes before it. -/
def Phase.next : Phase → Answer → Option (Phase × List String)
  | .configuring, .proceeds =>
    match parseMemory job.memoryLimit with
    | .error error => some (.done (.raised (.numberError error)), [])
    | .ok memoryBytes => some (.gettingImage memoryBytes, [])
  | .gettingImage memoryBytes, .returns => some (.creating memoryBytes, [])
  | .gettingImage memoryBytes, .imageNotFound => some (.pullingImage memoryBytes, [])
  | .pullingImage memoryBytes, .returns => some (.creating memoryBytes, [])
  | .creating _, .returns => some (.starting, [])
  | .starting, .returns => some (loop 0 (job.steps.getD []), [])
  | .choosing index step rest, .clock now =>
    if deadline - now ≤ 0 then
      some (.stopping (.result 124 .failed), [entry (step.nameAt index)
        ("Job timed out after " ++ toString self.maxJobDurationSec ++ "s")])
    else some (.execCreating index step rest, [])
  | .execCreating index step rest, .returns => some (.execStarting index step rest, [])
  | .execStarting index step rest, .returns => some (.reading index step rest, [])
  | .reading index step rest, .output chunk =>
    if deadline < chunk.clock then some (.killing index step, [])
    else some (.reading index step rest,
      (chunk.stdout.toList ++ chunk.stderr.toList).flatMap (chunkEntries (step.nameAt index)))
  | .killing index step, .returns =>
    some (.stopping (.result 124 .failed), [entry (step.nameAt index) "Job timed out"])
  | .reading index step rest, .outputEnd => some (.inspecting index step rest, [])
  | .inspecting index step rest, .exitCode code => some (.reloading index step rest (code.getD 0), [])
  | .reloading index step rest exitCode, .oomKilled killed =>
    if killed then
      some (.stopping (.result 137 .failed), [
        entry (step.nameAt index) "OOM killed — container exceeded memory limit",
        entry (step.nameAt index) ("OOM killed — memory limit " ++ job.memoryLimit ++ " exceeded")])
    else if exitCode ≠ 0 then some (.stopping (.result exitCode .failed), [])
    else some (loop (index + 1) rest, [])
  | .stopping ending, .returns => some (.removing ending, [])
  | .removing ending, .returns => some (.done ending, [])
  | phase, .raises exc => (phase.interrupted exc).map fun phase => (phase, [])
  | phase, .logRaises answer taken exc =>
    if phase.logs then (phase.next answer).bind fun (_, lines) =>
      if taken < lines.length then some (.stopping exc.ending, lines.take taken) else none
    else none
  | _, _ => none

/-- Whether the call that was waited for has returned. -/
def Answer.isReturn : Answer → Bool
  | .imageNotFound => false
  | .raises _ => false
  | _ => true

/-- The step that is sent to the container when its turn has come. -/
def Phase.starts : Phase → Answer → Phase → List StartedStep
  | .choosing index step _, .clock now, .execCreating _ _ _ => [⟨index, step.run.getD "", now⟩]
  | _, _, _ => []

def ContainerRun.next (s : ContainerRun) (answer : Answer) : Option ContainerRun :=
  (s.phase.next self deadline job answer).map fun (phase, lines) => {
    phase
    calls := s.calls ++ ((s.phase.call job).map fun call => (call, answer.isReturn)).toList
    logged := s.logged ++ lines
    started := s.started ++ s.phase.starts answer phase }

def ContainerRun.Step : ContainerRun → Answer → ContainerRun → Prop := stepsOf (ContainerRun.next self deadline job)

end

/-! ## The life of a container -/

/-- The abstract container, as Docker has it. -/
inductive Lifecycle where
  | absent
  | created
  | started
  | stopped
  | removed
  | abandoned
  deriving DecidableEq

/-- The calls that make sense in a state, with whether they return, and what they do. A container is abandoned when
its cleanup has failed. -/
def Lifecycle.next : Lifecycle → Call × Bool → Option Lifecycle
  | .absent, (.getImage _, _) => some .absent
  | .absent, (.pullImage _, _) => some .absent
  | .absent, (.create _ _ _, returned) => some (if returned then .created else .absent)
  | .created, (.start, returned) => some (if returned then .started else .created)
  | .created, (.stop, returned) => some (if returned then .stopped else .abandoned)
  | .started, (.execCreate _, _) => some .started
  | .started, (.execStart, _) => some .started
  | .started, (.kill, _) => some .started
  | .started, (.execInspect, _) => some .started
  | .started, (.reload, _) => some .started
  | .started, (.stop, returned) => some (if returned then .stopped else .abandoned)
  | .stopped, (.remove, returned) => some (if returned then .removed else .abandoned)
  | _, _ => none

/-- The states of the container that go with a phase. -/
def Phase.Has : Phase → Lifecycle → Prop
  | .configuring, container => container = .absent
  | .gettingImage _, container => container = .absent
  | .pullingImage _, container => container = .absent
  | .creating _, container => container = .absent
  | .starting, container => container = .created
  | .stopping _, container => container = .created ∨ container = .started
  | .removing _, container => container = .stopped
  | .done _, container => container = .absent ∨ container = .removed ∨ container = .abandoned
  | _, container => container = .started

variable {self : DockerJobRunner} {deadline : ℚ} {job : JobDict} {answers : List Answer} {answer : Answer}
  {s t : ContainerRun}

theorem loop_has (index : Nat) (rest : List StepDict) : (loop index rest).Has .started := by
  cases rest with
  | nil => exact .inr rfl
  | cons step rest => exact rfl

/-- What the call that was waited for does to the container. -/
def Lifecycle.after (container : Lifecycle) (call : Option Call) (returned : Bool) : Option Lifecycle :=
  match call with
  | none => some container
  | some call => container.next (call, returned)

/-- What an answer makes of a phase. -/
inductive Goes (deadline : ℚ) (job : JobDict) : Phase → Answer → Phase → Prop where
  | misread (error : NumberError) : Goes deadline job .configuring .proceeds (.done (.raised (.numberError error)))
  | configured (memoryBytes : Int) : Goes deadline job .configuring .proceeds (.gettingImage memoryBytes)
  | found (memoryBytes : Int) : Goes deadline job (.gettingImage memoryBytes) .returns (.creating memoryBytes)
  | notFound (memoryBytes : Int) :
      Goes deadline job (.gettingImage memoryBytes) .imageNotFound (.pullingImage memoryBytes)
  | pulled (memoryBytes : Int) : Goes deadline job (.pullingImage memoryBytes) .returns (.creating memoryBytes)
  | created (memoryBytes : Int) : Goes deadline job (.creating memoryBytes) .returns .starting
  | started : Goes deadline job .starting .returns (loop 0 (job.steps.getD []))
  | timedOut (index : Nat) (step : StepDict) (rest : List StepDict) (now : ℚ) (hLate : deadline - now ≤ 0) :
      Goes deadline job (.choosing index step rest) (.clock now) (.stopping (.result 124 .failed))
  | chosen (index : Nat) (step : StepDict) (rest : List StepDict) (now : ℚ) (hTime : ¬ deadline - now ≤ 0) :
      Goes deadline job (.choosing index step rest) (.clock now) (.execCreating index step rest)
  | execCreated (index : Nat) (step : StepDict) (rest : List StepDict) :
      Goes deadline job (.execCreating index step rest) .returns (.execStarting index step rest)
  | execStarted (index : Nat) (step : StepDict) (rest : List StepDict) :
      Goes deadline job (.execStarting index step rest) .returns (.reading index step rest)
  | late (index : Nat) (step : StepDict) (rest : List StepDict) (chunk : OutputChunk)
      (hLate : deadline < chunk.clock) :
      Goes deadline job (.reading index step rest) (.output chunk) (.killing index step)
  | printed (index : Nat) (step : StepDict) (rest : List StepDict) (chunk : OutputChunk)
      (hTime : ¬ deadline < chunk.clock) :
      Goes deadline job (.reading index step rest) (.output chunk) (.reading index step rest)
  | killed (index : Nat) (step : StepDict) :
      Goes deadline job (.killing index step) .returns (.stopping (.result 124 .failed))
  | printedAll (index : Nat) (step : StepDict) (rest : List StepDict) :
      Goes deadline job (.reading index step rest) .outputEnd (.inspecting index step rest)
  | inspected (index : Nat) (step : StepDict) (rest : List StepDict) (code : Option Int) :
      Goes deadline job (.inspecting index step rest) (.exitCode code) (.reloading index step rest (code.getD 0))
  | outOfMemory (index : Nat) (step : StepDict) (rest : List StepDict) (exitCode : Int) :
      Goes deadline job (.reloading index step rest exitCode) (.oomKilled true) (.stopping (.result 137 .failed))
  | failed (index : Nat) (step : StepDict) (rest : List StepDict) (exitCode : Int) (hCode : exitCode ≠ 0) :
      Goes deadline job (.reloading index step rest exitCode) (.oomKilled false)
        (.stopping (.result exitCode .failed))
  | passed (index : Nat) (step : StepDict) (rest : List StepDict) :
      Goes deadline job (.reloading index step rest 0) (.oomKilled false) (loop (index + 1) rest)
  | stopped (ending : Ending) : Goes deadline job (.stopping ending) .returns (.removing ending)
  | removed (ending : Ending) : Goes deadline job (.removing ending) .returns (.done ending)
  | raised (exc : DockerExc) {phase phase' : Phase} (hNext : phase.interrupted exc = some phase') :
      Goes deadline job phase (.raises exc) phase'
  | logRaised (answer : Answer) (taken : Nat) (exc : DockerExc) {phase : Phase} (hLogs : phase.logs = true) :
      Goes deadline job phase (.logRaises answer taken exc) (.stopping exc.ending)

theorem Phase.next_goes {phase phase' : Phase} {lines : List String}
    (h : phase.next self deadline job answer = some (phase', lines)) : Goes deadline job phase answer phase' := by
  revert h
  fun_cases Phase.next self deadline job phase answer with
  | case18 index step rest exitCode killed hAlive hCode =>
    intro h
    cases h
    cases Bool.eq_false_iff.mpr hAlive
    exact .failed index step rest exitCode hCode
  | case19 index step rest exitCode killed hAlive hCode =>
    intro h
    cases h
    cases Bool.eq_false_iff.mpr hAlive
    cases not_not.mp hCode
    exact .passed index step rest
  | case22 phase exc =>
    intro h
    obtain ⟨after, hAfter, hSame⟩ := Option.map_eq_some_iff.mp h
    cases hSame
    exact .raised exc hAfter
  | case23 phase answer taken exc hLogs =>
    intro h
    obtain ⟨⟨next, passed⟩, -, hTaken⟩ := Option.bind_eq_some_iff.mp h
    obtain ⟨-, hEnd⟩ := Option.ite_none_right_eq_some.mp hTaken
    cases hEnd
    exact .logRaised answer taken exc hLogs
  | case24 => nofun
  | case25 => nofun
  | _ =>
    intro h
    cases h
    constructor <;> assumption

theorem Phase.interrupted_has {phase phase' : Phase} {exc : DockerExc} {container : Lifecycle}
    (h : phase.interrupted exc = some phase') (hHas : phase.Has container) :
    ∃ container', container.after (phase.call job) false = some container' ∧ phase'.Has container' := by
  cases phase with
  | configuring => cases h
  | done ending => cases h
  | gettingImage _ | pullingImage _ | creating _ =>
    cases h
    cases hHas
    exact ⟨.absent, rfl, .inl rfl⟩
  | starting =>
    cases h
    cases hHas
    exact ⟨.created, rfl, .inl rfl⟩
  | stopping ending =>
    cases h
    rcases hHas with rfl | rfl <;> exact ⟨.abandoned, rfl, .inr (.inr rfl)⟩
  | removing ending =>
    cases h
    cases hHas
    exact ⟨.abandoned, rfl, .inr (.inr rfl)⟩
  | _ =>
    cases h
    cases hHas
    exact ⟨.started, rfl, .inr rfl⟩

theorem Goes.has {phase phase' : Phase} {container : Lifecycle} (h : Goes deadline job phase answer phase')
    (hHas : phase.Has container) :
    ∃ container', container.after (phase.call job) answer.isReturn = some container' ∧ phase'.Has container' := by
  cases h with
  | raised exc hNext => exact Phase.interrupted_has hNext hHas
  | logRaised answer taken exc hLogs =>
    cases phase <;> cases hLogs <;> cases hHas <;> exact ⟨.started, rfl, .inr rfl⟩
  | misread error =>
    cases hHas
    exact ⟨.absent, rfl, .inl rfl⟩
  | configured _ | found _ | notFound _ | pulled _ =>
    cases hHas
    exact ⟨.absent, rfl, rfl⟩
  | created memoryBytes =>
    cases hHas
    exact ⟨.created, rfl, rfl⟩
  | started =>
    cases hHas
    exact ⟨.started, rfl, loop_has _ _⟩
  | passed index step rest =>
    cases hHas
    exact ⟨.started, rfl, loop_has _ _⟩
  | stopped ending => rcases hHas with rfl | rfl <;> exact ⟨.stopped, rfl, rfl⟩
  | removed ending =>
    cases hHas
    exact ⟨.removed, rfl, .inr (.inl rfl)⟩
  | timedOut _ _ _ _ _ | killed _ _ | outOfMemory _ _ _ _ | failed _ _ _ _ _ =>
    cases hHas
    exact ⟨.started, rfl, .inr rfl⟩
  | _ =>
    cases hHas
    exact ⟨.started, rfl, rfl⟩

theorem ContainerRun.Step.phase (h : ContainerRun.Step self deadline job s answer t) : ∃ lines,
    s.phase.next self deadline job answer = some (t.phase, lines) ∧
      t.calls = s.calls ++ ((s.phase.call job).map fun call => (call, answer.isReturn)).toList ∧
      t.logged = s.logged ++ lines ∧ t.started = s.started ++ s.phase.starts answer t.phase := by
  obtain ⟨⟨phase, lines⟩, hNext, rfl⟩ := Option.map_eq_some_iff.mp h
  exact ⟨lines, hNext, rfl, rfl, rfl⟩

/-! ## The order of the steps -/

/-- The steps that are still to be sent, from which index on, where the phase tells it. -/
def Phase.remaining (job : JobDict) : Phase → Option (Nat × List StepDict)
  | .choosing index step rest => some (index, step :: rest)
  | .execCreating index _ rest => some (index + 1, rest)
  | .execStarting index _ rest => some (index + 1, rest)
  | .reading index _ rest => some (index + 1, rest)
  | .inspecting index _ rest => some (index + 1, rest)
  | .reloading index _ rest _ => some (index + 1, rest)
  | .killing _ _ => none
  | .stopping _ => none
  | .removing _ => none
  | .done _ => none
  | _ => some (0, job.steps.getD [])

theorem loop_remaining (index : Nat) (rest : List StepDict) :
    (loop index rest).remaining job = none ∨ (loop index rest).remaining job = some (index, rest) := by
  cases rest with
  | nil => exact .inl rfl
  | cons step rest => exact .inr rfl

/-- A step is sent when the loop comes to it, and no other change of the phase changes what remains. -/
theorem Goes.remaining {phase phase' : Phase} (h : Goes deadline job phase answer phase') :
    (phase.starts answer phase' = [] ∧
        (phase'.remaining job = none ∨ phase'.remaining job = phase.remaining job)) ∨
      ∃ index step rest now, phase.remaining job = some (index, step :: rest) ∧
        phase.starts answer phase' = [⟨index, step.run.getD "", now⟩] ∧
        phase'.remaining job = some (index + 1, rest) := by
  cases h with
  | chosen index step rest now hTime => exact .inr ⟨index, step, rest, now, rfl, rfl, rfl⟩
  | started => exact .inl ⟨rfl, loop_remaining _ _⟩
  | passed index step rest => exact .inl ⟨rfl, loop_remaining _ _⟩
  | raised exc hNext =>
    refine .inl ⟨by cases phase <;> rfl, .inl ?_⟩
    cases phase <;> cases hNext <;> rfl
  | logRaised answer taken exc hLogs => exact .inl ⟨by cases phase <;> rfl, .inl rfl⟩
  | misread _ | timedOut _ _ _ _ _ | late _ _ _ _ _ | killed _ _ | outOfMemory _ _ _ _ | failed _ _ _ _ _ | stopped _
  | removed _ => exact .inl ⟨rfl, .inl rfl⟩
  | _ => exact .inl ⟨rfl, .inr rfl⟩

/-- The commands of these steps, as they are numbered from an index on. -/
def numbered (index : Nat) (steps : List StepDict) : List (Nat × String) :=
  (steps.zipIdx index).map fun step => (step.2, step.1.run.getD "")

theorem numbered_cons (index : Nat) (step : StepDict) (rest : List StepDict) :
    numbered index (step :: rest) = (index, step.run.getD "") :: numbered (index + 1) rest := rfl

def ContainerRun.sent (s : ContainerRun) : List (Nat × String) :=
  s.started.map fun step => (step.index, step.command)

/-- The commands that were sent are those of the first steps, each once and in their order. -/
structure InOrder (job : JobDict) (s : ContainerRun) : Prop where
  sent : s.sent <+: numbered 0 (job.steps.getD [])
  remaining : ∀ index rest, s.phase.remaining job = some (index, rest) →
    numbered 0 (job.steps.getD []) = s.sent ++ numbered index rest

theorem InOrder.step (h : InOrder job s) (hStep : ContainerRun.Step self deadline job s answer t) :
    InOrder job t := by
  obtain ⟨lines, hNext, -, -, hStarted⟩ := hStep.phase
  rcases (Phase.next_goes hNext).remaining with ⟨hNone, hRemaining⟩ | ⟨index, step, rest, now, hHere, hOne, hThere⟩
  · rw [hNone, List.append_nil] at hStarted
    have hSent : t.sent = s.sent := by rw [ContainerRun.sent, hStarted, ContainerRun.sent]
    refine ⟨by rw [hSent]; exact h.sent, fun index rest hThere => ?_⟩
    rw [hSent]
    rcases hRemaining with hEnd | hSame
    · cases hEnd.symm.trans hThere
    · exact h.remaining index rest (hSame.symm.trans hThere)
  · have hSent : t.sent = s.sent ++ [(index, step.run.getD "")] := by
      rw [ContainerRun.sent, hStarted, hOne, List.map_append, ContainerRun.sent]
      rfl
    have hWhole : numbered 0 (job.steps.getD []) = t.sent ++ numbered (index + 1) rest := by
      rw [h.remaining index (step :: rest) hHere, hSent, numbered_cons, List.append_assoc, List.singleton_append]
    refine ⟨⟨_, hWhole.symm⟩, fun next later hRemaining => ?_⟩
    cases hThere.symm.trans hRemaining
    exact hWhole

theorem lifecycle_run (hRun : Run (ContainerRun.Step self deadline job) .initial answers s) :
    (∃ container, Run (stepsOf Lifecycle.next) .absent s.calls container ∧ s.phase.Has container) ∧ InOrder job s := by
  have hKeeps := hRun.invariant fun s answer t (h : (∃ container,
      Run (stepsOf Lifecycle.next) .absent s.calls container ∧ s.phase.Has container) ∧ InOrder job s) hStep => by
    obtain ⟨⟨container, hCalls, hHas⟩, hInOrder⟩ := h
    obtain ⟨lines, hNext, hMore, -⟩ := hStep.phase
    obtain ⟨container', hAfter, hHas'⟩ := (Phase.next_goes hNext).has hHas
    refine And.intro ⟨container', ?_, hHas'⟩ (hInOrder.step hStep)
    rw [hMore]
    cases hCall : s.phase.call job with
    | none =>
      rw [hCall] at hAfter
      cases hAfter
      simpa using hCalls
    | some call =>
      rw [hCall] at hAfter
      exact hCalls.append (.single hAfter)
  exact hKeeps ⟨⟨.absent, .nil _, rfl⟩, List.nil_prefix, fun index rest hRest => by cases hRest; rfl⟩

/-- Whatever raises, the calls are ones that the container allows, it has been cleaned up when `run_job` is done,
unless the cleanup itself has failed, and the commands sent to it are those of the first steps, in their order. -/
theorem container_lifecycle (hRun : Run (ContainerRun.Step self deadline job) .initial answers s) :
    (∃ container, Run (stepsOf Lifecycle.next) .absent s.calls container ∧ s.phase.Has container) ∧
      s.sent <+: numbered 0 (job.steps.getD []) :=
  ⟨(lifecycle_run hRun).1, (lifecycle_run hRun).2.sent⟩

/-- The output of the only step cannot be had, and the container cannot be removed. -/
def raisingAnswers : List Answer :=
  [.proceeds, .returns, .returns, .returns, .clock 101, .returns, .raises .containerError, .returns,
    .raises (.other "conflict")]

theorem container_lifecycle_raising : ∃ s,
    Run (ContainerRun.Step exampleRunner 160 (exampleJob 1)) .initial raisingAnswers s ∧
      s.phase = .done (.result 1 .failed) ∧
      (∃ container, Run (stepsOf Lifecycle.next) .absent s.calls container ∧ s.phase.Has container) ∧
      s.sent <+: numbered 0 ((exampleJob 1).steps.getD []) := by
  obtain ⟨memoryBytes, hMemory⟩ :=
    exists_of_isOk (show (parseMemory (exampleJob 1).memoryLimit).isOk = true by decide +kernel)
  have hSteps : (exampleJob 1).steps.getD [] = [{ run := some "make" }] := rfl
  have hTime : ¬ (160 : ℚ) - 101 ≤ 0 := by norm_num
  obtain ⟨s, hExecute, hPhase⟩ : ∃ s,
      execute (ContainerRun.next exampleRunner 160 (exampleJob 1)) .initial raisingAnswers = some s ∧
        s.phase = .done (.result 1 .failed) := by
    simp [raisingAnswers, execute, ContainerRun.next, ContainerRun.initial, Phase.next, hMemory, hSteps, hTime,
      loop, Phase.interrupted, DockerExc.ending]
  have hRun := run_stepsOf_iff.mpr hExecute
  exact ⟨s, hRun, hPhase, container_lifecycle hRun⟩

/-! ## Agreement with `runJob` -/

/-- What the loop over the output meets, up to the chunk after which the container is killed. -/
def outputAnswers (deadline : ℚ) : List OutputChunk → List Answer
  | [] => [.outputEnd]
  | chunk :: rest =>
    if deadline < chunk.clock then [.output chunk, .returns] else .output chunk :: outputAnswers deadline rest

def stepAnswers (deadline : ℚ) (exec : StepExec) : List Answer :=
  .returns :: .returns :: outputAnswers deadline exec.output ++
    if (readOutput deadline "" exec.output).2 then [] else [.exitCode exec.exitCode, .oomKilled exec.oomKilled]

/-- What the loop over the steps meets in a trace without exceptions. -/
def loopAnswers (deadline : ℚ) (exec : Nat → StepExec) : Nat → List StepDict → List Answer
  | _, [] => []
  | index, _ :: rest =>
    .clock (exec index).clock ::
      if deadline - (exec index).clock ≤ 0 then []
      else
        let result := execStep deadline "" (exec index)
        stepAnswers deadline (exec index) ++
          if result.oomKilled || result.exitCode ≠ 0 then [] else loopAnswers deadline exec (index + 1) rest

def jobAnswers (self : DockerJobRunner) (docker : Docker) (job : JobDict) : List Answer :=
  [.proceeds, .returns, .returns, .returns] ++
    loopAnswers (self.deadline docker) docker.exec 0 (job.steps.getD []) ++ [.returns, .returns]

/-- The name of the step is in the lines only. -/
theorem readOutput_late (deadline : ℚ) (stepName : String) (output : List OutputChunk) :
    (readOutput deadline stepName output).2 = (readOutput deadline "" output).2 := by
  induction output with
  | nil => rfl
  | cons chunk rest ih =>
    simp only [readOutput]
    split
    · rfl
    · exact ih

theorem execStep_result (deadline : ℚ) (stepName : String) (exec : StepExec) :
    (execStep deadline stepName exec).exitCode = (execStep deadline "" exec).exitCode ∧
      (execStep deadline stepName exec).oomKilled = (execStep deadline "" exec).oomKilled := by
  have hLate := readOutput_late deadline stepName exec.output
  simp only [execStep, hLate]
  split <;> exact ⟨rfl, rfl⟩

/-- A run that has got to a phase, with more lines and more steps than before. -/
def Reaches (self : DockerJobRunner) (deadline : ℚ) (job : JobDict) (s : ContainerRun) (answers : List Answer)
    (phase : Phase) (lines : List String) (steps : List StartedStep) : Prop :=
  ∃ t, Run (ContainerRun.Step self deadline job) s answers t ∧ t.phase = phase ∧ t.logged = s.logged ++ lines ∧
    t.started = s.started ++ steps

theorem reaches_nil {phase : Phase} (hPhase : s.phase = phase) : Reaches self deadline job s [] phase [] [] :=
  ⟨s, .nil s, hPhase, (List.append_nil _).symm, (List.append_nil _).symm⟩

theorem reaches_cons {before phase phase' : Phase} {lines lines' : List String} {steps : List StartedStep}
    (hPhase : s.phase = before) (hNext : before.next self deadline job answer = some (phase, lines))
    (hRest : ∀ t : ContainerRun, t.phase = phase → Reaches self deadline job t answers phase' lines' steps) :
    Reaches self deadline job s (answer :: answers) phase' (lines ++ lines')
      (before.starts answer phase ++ steps) := by
  subst hPhase
  obtain ⟨u, hRun, hPhase', hLogged, hStarted⟩ := hRest ⟨phase, s.calls ++ ((s.phase.call job).map fun call =>
    (call, answer.isReturn)).toList, s.logged ++ lines, s.started ++ s.phase.starts answer phase⟩ rfl
  refine ⟨u, .cons ?_ hRun, hPhase', by rw [hLogged, List.append_assoc], by rw [hStarted, List.append_assoc]⟩
  simp only [ContainerRun.Step, stepsOf, ContainerRun.next, hNext, Option.map_some]

theorem reaches_silent {before phase phase' : Phase} {lines : List String} {steps : List StartedStep}
    (hPhase : s.phase = before) (hNext : before.next self deadline job answer = some (phase, []))
    (hNone : before.starts answer phase = [])
    (hRest : ∀ t : ContainerRun, t.phase = phase → Reaches self deadline job t answers phase' lines steps) :
    Reaches self deadline job s (answer :: answers) phase' lines steps := by
  have hCons := reaches_cons hPhase hNext hRest
  rw [hNone] at hCons
  exact hCons

theorem Reaches.append {phase phase' : Phase} {lines lines' : List String} {steps steps' : List StartedStep}
    {later : List Answer} (h : Reaches self deadline job s answers phase lines steps)
    (hRest : ∀ t : ContainerRun, t.phase = phase → Reaches self deadline job t later phase' lines' steps') :
    Reaches self deadline job s (answers ++ later) phase' (lines ++ lines') (steps ++ steps') := by
  obtain ⟨t, hRun, hPhase, hLogged, hStarted⟩ := h
  obtain ⟨u, hLater, hPhase', hLogged', hStarted'⟩ := hRest t hPhase
  refine ⟨u, hRun.append hLater, hPhase', ?_, ?_⟩
  · rw [hLogged', hLogged, List.append_assoc]
  · rw [hStarted', hStarted, List.append_assoc]

theorem reaches_output (index : Nat) (step : StepDict) (rest : List StepDict) (output : List OutputChunk)
    (hPhase : s.phase = .reading index step rest) :
    Reaches self deadline job s (outputAnswers deadline output)
      (if (readOutput deadline "" output).2 then .stopping (.result 124 .failed) else .inspecting index step rest)
      (readOutput deadline (step.nameAt index) output).1 [] := by
  induction output generalizing s with
  | nil =>
    have hEnd : (Phase.reading index step rest).next self deadline job .outputEnd =
        some (.inspecting index step rest, []) := rfl
    exact reaches_cons hPhase hEnd fun t hThere => reaches_nil hThere
  | cons chunk rest' ih =>
    by_cases hLate : deadline < chunk.clock
    · have hKill : (Phase.reading index step rest).next self deadline job (.output chunk) =
          some (.killing index step, []) := if_pos hLate
      have hStop : (Phase.killing index step).next self deadline job .returns =
          some (.stopping (.result 124 .failed), [entry (step.nameAt index) "Job timed out"]) := rfl
      simp only [outputAnswers, readOutput, hLate, if_true]
      refine reaches_silent hPhase hKill rfl fun t hThere => ?_
      exact reaches_cons hThere hStop fun u hEnd => reaches_nil hEnd
    · have hGoes : (Phase.reading index step rest).next self deadline job (.output chunk) =
          some (.reading index step rest,
            (chunk.stdout.toList ++ chunk.stderr.toList).flatMap (chunkEntries (step.nameAt index))) :=
        if_neg hLate
      simp only [outputAnswers, readOutput, hLate, if_false]
      exact reaches_cons hPhase hGoes fun t hThere => ih hThere

/-- Where the loop goes on after a step. -/
def afterStep (index : Nat) (rest : List StepDict) (result : ExecResult) : Phase :=
  if result.oomKilled then .stopping (.result 137 .failed)
  else if result.exitCode ≠ 0 then .stopping (.result result.exitCode .failed)
  else loop (index + 1) rest

def stepLines (memoryLimit stepName : String) (result : ExecResult) : List String :=
  result.logged ++
    if result.oomKilled then [entry stepName ("OOM killed — memory limit " ++ memoryLimit ++ " exceeded")] else []

def killedLines (memoryLimit stepName : String) (killed : Bool) : List String :=
  if killed then
    [entry stepName "OOM killed — container exceeded memory limit",
      entry stepName ("OOM killed — memory limit " ++ memoryLimit ++ " exceeded")]
  else []

theorem reaches_reload (index : Nat) (step : StepDict) (rest : List StepDict) (exec : StepExec)
    (logged : List String) (hPhase : s.phase = .inspecting index step rest) :
    Reaches self deadline job s [.exitCode exec.exitCode, .oomKilled exec.oomKilled]
      (afterStep index rest ⟨exec.exitCode.getD 0, exec.oomKilled, logged⟩)
      (killedLines job.memoryLimit (step.nameAt index) exec.oomKilled) [] := by
  have hInspect : (Phase.inspecting index step rest).next self deadline job (.exitCode exec.exitCode) =
      some (.reloading index step rest (exec.exitCode.getD 0), []) := rfl
  have hReload : (Phase.reloading index step rest (exec.exitCode.getD 0)).next self deadline job
      (.oomKilled exec.oomKilled) = some (afterStep index rest ⟨exec.exitCode.getD 0, exec.oomKilled, logged⟩,
        killedLines job.memoryLimit (step.nameAt index) exec.oomKilled) := by
    simp only [Phase.next, afterStep, killedLines]
    split
    · rfl
    · split <;> rfl
  refine reaches_silent hPhase hInspect rfl fun t hThere => ?_
  have hLast := reaches_cons hThere hReload fun u hEnd => reaches_nil hEnd
  rw [List.append_nil] at hLast
  exact hLast

theorem reaches_step (index : Nat) (step : StepDict) (rest : List StepDict) (exec : StepExec)
    (hPhase : s.phase = .execCreating index step rest) :
    Reaches self deadline job s (stepAnswers deadline exec)
      (afterStep index rest (execStep deadline (step.nameAt index) exec))
      (stepLines job.memoryLimit (step.nameAt index) (execStep deadline (step.nameAt index) exec)) [] := by
  refine reaches_silent hPhase rfl rfl fun t hThere => reaches_silent hThere rfl rfl fun u hReading => ?_
  have hLate := readOutput_late deadline (step.nameAt index) exec.output
  have hOutput : Reaches self deadline job u _ _ _ _ := reaches_output index step rest exec.output hReading
  cases hSome : (readOutput deadline "" exec.output).2 with
  | true =>
    rw [hSome] at hOutput hLate
    simpa [execStep, hLate, afterStep, stepLines, hSome] using hOutput
  | false =>
    rw [hSome] at hOutput hLate
    have hWhole := hOutput.append fun v hInspecting => reaches_reload index step rest exec
      (execStep deadline (step.nameAt index) exec).logged hInspecting
    have hLines : (readOutput deadline (step.nameAt index) exec.output).1 ++
        killedLines job.memoryLimit (step.nameAt index) exec.oomKilled =
          stepLines job.memoryLimit (step.nameAt index) (execStep deadline (step.nameAt index) exec) := by
      cases hKilled : exec.oomKilled <;> simp [execStep, hLate, stepLines, killedLines, hKilled]
    have hResult : execStep deadline (step.nameAt index) exec = ⟨exec.exitCode.getD 0, exec.oomKilled,
        (execStep deadline (step.nameAt index) exec).logged⟩ := by
      simp [execStep, hLate]
    rw [hLines, ← hResult] at hWhole
    exact hWhole

theorem reaches_loop (exec : Nat → StepExec) (index : Nat) (steps : List StepDict)
    (hPhase : s.phase = loop index steps) :
    Reaches self deadline job s (loopAnswers deadline exec index steps)
      (.stopping (.result (self.runSteps job.memoryLimit deadline exec index steps).exitCode
        (self.runSteps job.memoryLimit deadline exec index steps).status))
      (self.runSteps job.memoryLimit deadline exec index steps).logged
      (self.runSteps job.memoryLimit deadline exec index steps).started := by
  induction steps generalizing index s with
  | nil => exact reaches_nil hPhase
  | cons step rest ih =>
    have hHere : s.phase = .choosing index step rest := hPhase
    by_cases hTime : deadline - (exec index).clock ≤ 0
    · have hStop : (Phase.choosing index step rest).next self deadline job (.clock (exec index).clock) =
          some (.stopping (.result 124 .failed), [entry (step.nameAt index)
            ("Job timed out after " ++ toString self.maxJobDurationSec ++ "s")]) := if_pos hTime
      simp only [loopAnswers, runSteps, hTime, if_true]
      exact reaches_cons hHere hStop fun t hEnd => reaches_nil hEnd
    · have hSend : (Phase.choosing index step rest).next self deadline job (.clock (exec index).clock) =
          some (.execCreating index step rest, []) := if_neg hTime
      obtain ⟨hExit, hKill⟩ := execStep_result deadline (step.nameAt index) (exec index)
      simp only [loopAnswers, runSteps, hTime, if_false, ← hExit, ← hKill]
      generalize hResult : execStep deadline (step.nameAt index) (exec index) = result
      have hStep : ∀ t : ContainerRun, t.phase = .execCreating index step rest →
          Reaches self deadline job t (stepAnswers deadline (exec index)) (afterStep index rest result)
            (stepLines job.memoryLimit (step.nameAt index) result) [] := by
        intro t hThere
        rw [← hResult]
        exact reaches_step index step rest (exec index) hThere
      have hSent : ∀ {answers : List Answer} {phase : Phase} {lines : List String} {started : List StartedStep},
          (∀ t : ContainerRun, t.phase = .execCreating index step rest →
            Reaches self deadline job t answers phase lines started) →
          Reaches self deadline job s (.clock (exec index).clock :: answers) phase lines
            (step.startedAt index (exec index) :: started) := fun hRest => reaches_cons hHere hSend hRest
      by_cases hOom : result.oomKilled = true
      · have hRest := hSent fun t hThere => (hStep t hThere).append fun u hAfter =>
          reaches_nil (hAfter.trans (if_pos hOom))
        simpa [hOom, stepLines] using hRest
      · by_cases hFails : result.exitCode ≠ 0
        · have hRest := hSent fun t hThere => (hStep t hThere).append fun u hAfter =>
            reaches_nil (hAfter.trans ((if_neg hOom).trans (if_pos hFails)))
          simpa [hOom, hFails, stepLines, StepsRun.after, finish] using hRest
        · have hRest := hSent fun t hThere => (hStep t hThere).append fun u hAfter =>
            ih (index + 1) (hAfter.trans ((if_neg hOom).trans (if_neg hFails)))
          simpa [hOom, hFails, stepLines, StepsRun.after] using hRest

theorem cleanup_run (self : DockerJobRunner) (deadline : ℚ) (job : JobDict) {ending : Ending}
    {container : Lifecycle} (hPhase : s.phase = .stopping ending) (hHas : (Phase.stopping ending).Has container) :
    ∃ t, Run (ContainerRun.Step self deadline job) s [.returns, .returns] t ∧ t.phase = .done ending ∧
      t.logged = s.logged ∧ t.started = s.started ∧ (Run (stepsOf Lifecycle.next) .absent s.calls container →
        Run (stepsOf Lifecycle.next) .absent t.calls .removed) := by
  have hStop : (Phase.stopping ending).next self deadline job .returns = some (.removing ending, []) := rfl
  have hRemove : (Phase.removing ending).next self deadline job .returns = some (.done ending, []) := rfl
  obtain ⟨phase, calls, logged, started⟩ := s
  cases hPhase
  refine ⟨⟨.done ending, calls ++ [(.stop, true)] ++ [(.remove, true)], logged, started⟩,
    .cons (t := ⟨.removing ending, calls ++ [(.stop, true)], logged, started⟩) ?_ (.single ?_), rfl, rfl, rfl, ?_⟩
  · simp [ContainerRun.Step, stepsOf, ContainerRun.next, hStop, Phase.call, Phase.starts, Answer.isReturn]
  · simp [ContainerRun.Step, stepsOf, ContainerRun.next, hRemove, Phase.call, Phase.starts, Answer.isReturn]
  · intro hCalls
    have hStopped : stepsOf Lifecycle.next container (.stop, true) .stopped := by
      rcases hHas with rfl | rfl <;> rfl
    have hRemoved : stepsOf Lifecycle.next .stopped (.remove, true) .removed := rfl
    exact (hCalls.append (.single hStopped)).append (.single hRemoved)

/-- Where no call raises, the calls come to the result that `runJob` has, with the same lines and the same steps, and
the container is gone. -/
theorem runJob_calls {docker : Docker} (hStarts : Starts docker job) (jobName : String) :
    ∃ run t, self.runJob docker jobName job = .ok run ∧
      Run (ContainerRun.Step self (self.deadline docker) job) .initial (jobAnswers self docker job) t ∧
      t.phase = .done (.result run.result.exitCode run.result.status) ∧ t.logged = run.logged ∧
      t.started = run.started ∧ Run (stepsOf Lifecycle.next) .absent t.calls .removed := by
  obtain ⟨memoryBytes, hMemory, -⟩ := id hStarts
  generalize hRuns : self.runSteps job.memoryLimit (self.deadline docker) docker.exec 0 (job.steps.getD []) = steps
  have hConfigure : Phase.configuring.next self (self.deadline docker) job .proceeds =
      some (.gettingImage memoryBytes, []) := by
    simp only [Phase.next, hMemory]
  have hGet : (Phase.gettingImage memoryBytes).next self (self.deadline docker) job .returns =
      some (.creating memoryBytes, []) := rfl
  have hCreate : (Phase.creating memoryBytes).next self (self.deadline docker) job .returns =
      some (.starting, []) := rfl
  have hStart : Phase.starting.next self (self.deadline docker) job .returns =
      some (loop 0 (job.steps.getD []), []) := rfl
  obtain ⟨u, hRun, hPhase, hLogged, hStarted⟩ : Reaches self (self.deadline docker) job .initial
      ([.proceeds, .returns, .returns, .returns] ++
        loopAnswers (self.deadline docker) docker.exec 0 (job.steps.getD []))
      (.stopping (.result steps.exitCode steps.status)) steps.logged steps.started := by
    refine reaches_silent rfl hConfigure rfl fun _ hGot => reaches_silent hGot hGet rfl fun _ hCreating => ?_
    refine reaches_silent hCreating hCreate rfl fun _ hStarting => reaches_silent hStarting hStart rfl ?_
    rw [← hRuns]
    exact fun _ hLoop => reaches_loop docker.exec 0 (job.steps.getD []) hLoop
  obtain ⟨⟨container, hCalls, hHas⟩, -⟩ := lifecycle_run hRun
  rw [hPhase] at hHas
  obtain ⟨t, hCleanup, hDone, hSame, hNoMore, hGone⟩ := cleanup_run self (self.deadline docker) job hPhase hHas
  refine ⟨_, t, runJob_of_starts hStarts jobName, hRun.append hCleanup, ?_, ?_, ?_, hGone hCalls⟩
  · rw [hRuns]
    exact hDone
  · rw [hRuns]
    exact hSame.trans hLogged
  · rw [hRuns]
    exact hNoMore.trans hStarted

theorem runJob_calls_killed : ∃ run t,
    exampleRunner.runJob (exampleDocker killedExec) "build" (exampleJob 3) = .ok run ∧
      Run (ContainerRun.Step exampleRunner (exampleRunner.deadline (exampleDocker killedExec)) (exampleJob 3))
        .initial (jobAnswers exampleRunner (exampleDocker killedExec) (exampleJob 3)) t ∧
      t.phase = .done (.result run.result.exitCode run.result.status) ∧ t.logged = run.logged ∧
      t.started = run.started ∧ Run (stepsOf Lifecycle.next) .absent t.calls .removed :=
  runJob_calls (starts_example killedExec 3) "build"

end Forge.Engine.DockerJobRunner
