import Mathlib.Logic.Function.Basic
import Forge.Engine.LogFollowers

/-! # What a run tells

The lines that the engine itself writes to the log of a job, around those of its container, and the alerts that
it sends. A line reports a call that has succeeded: it is due until it is written, or until the thread meets an
exception.
-/
namespace Forge.Engine
open Forge.Python Forge.Registry Forge.Theory
set_option autoImplicit false

/-! ## Lines -/

def startLine (job : String) : String := "Starting job " ++ job

def pulledLine (dep : DepPull) : String := "Pulled " ++ dep.1 ++ "@" ++ dep.2.version

def publishedLine (name version : String) : String := "Published " ++ name ++ "@" ++ version

def mismatchLine (name version expected actual : String) : String :=
  "Checksum mismatch for " ++ name ++ "@" ++ version ++ ": expected sha256:" ++ expected ++ ", actual sha256:" ++
    actual

def integrityLine (name version expected actual : String) : String :=
  "integrity failure pulling " ++ name ++ "@" ++ version ++ ": expected sha256:" ++ expected ++
    ", actual sha256:" ++ actual

/-- The line that a worker is to write after a call. -/
def dueLine (job : String) : Worker → Action → Option String
  | .queued, .start => some (startLine job)
  | .pulling (dep :: _), .pull statusCode content =>
    match pullDep dep statusCode content with
    | .ok () => some (pulledLine dep)
    | .error _ => none
  | .answered artifact data statusCode text _ _, .receive =>
    match publishArtifact artifact data statusCode text with
    | .ok _ => some (publishedLine artifact.name artifact.version)
    | .error _ => none
  | _, _ => none

/-- What `pull_deps` writes before it raises. -/
def raiseLine : Worker → Action → Option String
  | .pulling (dep :: _), .pull statusCode content =>
    match pullDep dep statusCode content with
    | .error (.integrityError name version expected actual) => some (mismatchLine name version expected actual)
    | _ => none
  | _, _ => none

/-- What the main thread writes when it has caught what the worker raised. -/
def catchLine : Worker → Option String
  | .raised (.integrityError name version expected actual) => some (integrityLine name version expected actual)
  | _ => none

/-- The line that is written before a step takes effect, with its job. -/
def Execution.spoken (s : Execution) : Event → Option (String × String)
  | .work job action =>
    ((s.futures.get? job).bind fun worker => raiseLine worker action).map fun line => (job, line)
  | .collect job => ((s.futures.get? job).bind catchLine).map fun line => (job, line)
  | _ => none

/-! ## Alerts -/

/-- A call of a function of `slack`, without the name, the id and the duration of the run. -/
inductive Alert where
  | pipelineStarted (user : String)
  | pipelineSucceeded
  | pipelineFailed (failingJob : Option String)
  | integrityFailure (name version expectedSha256 actualSha256 : String)
  | resolutionFailure (details : String)
  deriving DecidableEq

def JobEntry.isFailing (entry : JobEntry) : Bool :=
  entry.status = .job .failed || entry.status = .integrityFailure

def failing (jobs : Dict String JobEntry) : Option String :=
  (jobs.entries.find? fun entry => entry.2.isFailing).map Prod.fst

def resolutionAlert (run : RunState) : Option Alert :=
  match run.status with
  | .cycleFailure => run.error.map .resolutionFailure
  | .conflictFailure => run.error.map .resolutionFailure
  | _ => none

def catchAlert : Worker → Option Alert
  | .raised (.integrityError name version expected actual) => some (.integrityFailure name version expected actual)
  | _ => none

/-- The alert that a step sends, with the state after it. -/
def Execution.alert (s t : Execution) : Event → Option Alert
  | .resolve => resolutionAlert t.run
  | .plan => resolutionAlert t.run
  | .collect job => (s.futures.get? job).bind catchAlert
  | .finish _ =>
    match t.run.status with
    | .succeeded => some .pipelineSucceeded
    | .failed => some (.pipelineFailed (failing t.run.jobs))
    | .integrityFailure => some (.pipelineFailed (failing t.run.jobs))
    | _ => none
  | _ => none

/-! ## The journal -/

/-- A run with its log and its followers, the lines that its workers are about to write, and the alerts so far. -/
structure JournaledRun where
  logged : LoggedRun
  due : String → Option String
  alerts : List Alert

/-- `submit_pipeline` announces the run before it starts. -/
def JournaledRun.submitted (submitter : String) : JournaledRun :=
  ⟨.initial, fun _ => none, [.pipelineStarted submitter]⟩

/-- `output` is a line of the container of a job, and `stream` a step of the followers. -/
inductive JournalStep where
  | execute (ts : String) (event : Event)
  | write (ts job : String)
  | output (ts job line : String)
  | stream (step : LogStep)

def LogStep.isStream : LogStep → Bool
  | .unregister => true
  | .follow => true
  | .poll _ _ => true
  | _ => false

def JournaledRun.execution (s : JournaledRun) : Execution := s.logged.execution

def JournaledRun.written (s : JournaledRun) : List LogEvent := s.logged.written

/-- A worker goes on only when it has written its line. -/
def JournaledRun.holds (s : JournaledRun) : Event → Bool
  | .work _ (.raise _) => false
  | .work job _ => (s.due job).isSome
  | _ => false

def JournaledRun.dueAfter (s : JournaledRun) : Event → String → Option String
  | .work job action => Function.update s.due job
      ((s.execution.futures.get? job).bind fun worker => dueLine job worker action)
  | _ => s.due

section
variable (floats : FloatRepr) (host : Host) (registry : RegistryClient) (pipeline : PipelineConfig)

def LoggedRun.say (s : LoggedRun) (ts : String) : Option (String × String) → Option LoggedRun
  | none => some s
  | some (job, line) => s.next floats host registry pipeline (.write ⟨ts, job, line⟩)

def JournaledRun.next (s : JournaledRun) : JournalStep → Option JournaledRun
  | .execute ts event =>
    if s.holds event then none
    else
      (s.logged.say floats host registry pipeline ts (s.execution.spoken event)).bind fun said =>
        (said.next floats host registry pipeline (.execute event)).map fun logged =>
          ⟨logged, s.dueAfter event, s.alerts ++ (s.execution.alert logged.execution event).toList⟩
  | .write ts job =>
    match s.due job, s.execution.futures.get? job with
    | some line, some worker =>
      if worker.isActive then
        (s.logged.say floats host registry pipeline ts (some (job, line))).map fun logged =>
          { s with logged, due := Function.update s.due job none }
      else none
    | _, _ => none
  | .output ts job line =>
    match s.execution.futures.get? job with
    | some .running =>
      (s.logged.say floats host registry pipeline ts (some (job, line))).map fun logged => { s with logged }
    | _ => none
  | .stream step =>
    if step.isStream then (s.logged.next floats host registry pipeline step).map fun logged => { s with logged }
    else none

def JournaledRun.Step : JournaledRun → JournalStep → JournaledRun → Prop :=
  stepsOf (JournaledRun.next floats host registry pipeline)

end

/-! ## Inversion -/

section
variable {floats : FloatRepr} {host : Host} {registry : RegistryClient} {pipeline : PipelineConfig}

def asEvents (ts : String) (said : Option (String × String)) : List LogEvent :=
  (said.map fun entry => LogEvent.mk ts entry.1 entry.2).toList

theorem LoggedRun.say_some {s t : LoggedRun} {ts : String} {said : Option (String × String)}
    (h : s.say floats host registry pipeline ts said = some t) :
    t.execution = s.execution ∧ t.written = s.written ++ asEvents ts said ∧
      ∃ steps, Run (LoggedRun.Step floats host registry pipeline) s steps t := by
  cases said with
  | none =>
    cases h
    exact ⟨rfl, (List.append_nil _).symm, [], .nil _⟩
  | some entry =>
    have hRun : LoggedRun.Step floats host registry pipeline s (.write ⟨ts, entry.1, entry.2⟩) t := h
    simp only [LoggedRun.say, LoggedRun.next] at h
    split at h
    · cases h
      exact ⟨rfl, rfl, _, .single hRun⟩
    · cases h

/-- The steps of a journal, by what they do to the run, its log, its lines and its alerts. -/
inductive JournalMoves (host : Host) (registry : RegistryClient) (pipeline : PipelineConfig) (s : JournaledRun) :
    JournalStep → JournaledRun → Prop where
  | executed (ts : String) (event : Event) (t : JournaledRun) (hFree : s.holds event = false)
      (hStep : Execution.Step host registry pipeline s.execution event t.execution)
      (hWritten : t.written = s.written ++ asEvents ts (s.execution.spoken event))
      (hDue : t.due = s.dueAfter event)
      (hAlerts : t.alerts = s.alerts ++ (s.execution.alert t.execution event).toList) :
      JournalMoves host registry pipeline s (.execute ts event) t
  | wrote (ts job line : String) (worker : Worker) (t : JournaledRun) (hLine : s.due job = some line)
      (hWorker : s.execution.futures.get? job = some worker) (hActive : worker.isActive = true)
      (hSame : t.execution = s.execution) (hWritten : t.written = s.written ++ [⟨ts, job, line⟩])
      (hDue : t.due = Function.update s.due job none) (hAlerts : t.alerts = s.alerts) :
      JournalMoves host registry pipeline s (.write ts job) t
  | printed (ts job line : String) (t : JournaledRun) (hWorker : s.execution.futures.get? job = some .running)
      (hSame : t.execution = s.execution) (hWritten : t.written = s.written ++ [⟨ts, job, line⟩])
      (hDue : t.due = s.due) (hAlerts : t.alerts = s.alerts) :
      JournalMoves host registry pipeline s (.output ts job line) t
  | streamed (step : LogStep) (t : JournaledRun) (hSame : t.execution = s.execution)
      (hWritten : t.written = s.written) (hDue : t.due = s.due) (hAlerts : t.alerts = s.alerts) :
      JournalMoves host registry pipeline s (.stream step) t

theorem LoggedRun.next_stream {s t : LoggedRun} {step : LogStep} (hStream : step.isStream = true)
    (h : s.next floats host registry pipeline step = some t) : t.execution = s.execution ∧ t.written = s.written := by
  cases step with
  | execute event => cases hStream
  | write event => cases hStream
  | unregister =>
    simp only [LoggedRun.next] at h
    split at h
    · cases h
      exact ⟨rfl, rfl⟩
    · cases h
  | follow =>
    cases h
    exact ⟨rfl, rfl⟩
  | poll i now =>
    simp only [LoggedRun.next] at h
    split at h
    · cases h
    · obtain ⟨follower, -, rfl⟩ := Option.map_eq_some_iff.mp h
      exact ⟨rfl, rfl⟩

variable {s t : JournaledRun} {step : JournalStep}

/-- The journal refines the run with its log: its steps are steps of that run, and the log is the same one. -/
theorem JournaledRun.Step.moves (h : JournaledRun.Step floats host registry pipeline s step t) :
    JournalMoves host registry pipeline s step t ∧
      ∃ steps, Run (LoggedRun.Step floats host registry pipeline) s.logged steps t.logged := by
  rw [JournaledRun.Step, stepsOf] at h
  cases step with
  | execute ts event =>
    simp only [JournaledRun.next] at h
    split at h
    · cases h
    · rename_i hHolds
      obtain ⟨said, hSaid, hNext⟩ := Option.bind_eq_some_iff.mp h
      obtain ⟨logged, hLogged, rfl⟩ := Option.map_eq_some_iff.mp hNext
      obtain ⟨hSame, hWritten, steps, hRun⟩ := LoggedRun.say_some hSaid
      have hLast : LoggedRun.Step floats host registry pipeline said (.execute event) logged := hLogged
      refine ⟨?_, steps ++ [.execute event], hRun.append (.single hLast)⟩
      obtain ⟨execution, hExecute, rfl⟩ := Option.map_eq_some_iff.mp hLogged
      rw [hSame] at hExecute
      exact .executed ts event _ (by simpa using hHolds) hExecute hWritten rfl rfl
  | write ts job =>
    simp only [JournaledRun.next] at h
    split at h
    · rename_i line worker hLine hWorker
      split at h
      · rename_i hActive
        obtain ⟨logged, hSaid, rfl⟩ := Option.map_eq_some_iff.mp h
        obtain ⟨hSame, hWritten, hRun⟩ := LoggedRun.say_some hSaid
        exact ⟨.wrote ts job line worker _ hLine hWorker hActive hSame hWritten rfl rfl, hRun⟩
      · cases h
    · cases h
  | output ts job line =>
    simp only [JournaledRun.next] at h
    split at h
    · rename_i hWorker
      obtain ⟨logged, hSaid, rfl⟩ := Option.map_eq_some_iff.mp h
      obtain ⟨hSame, hWritten, hRun⟩ := LoggedRun.say_some hSaid
      exact ⟨.printed ts job line _ hWorker hSame hWritten rfl rfl, hRun⟩
    · cases h
  | stream step =>
    simp only [JournaledRun.next] at h
    split at h
    · rename_i hStream
      obtain ⟨logged, hLogged, rfl⟩ := Option.map_eq_some_iff.mp h
      obtain ⟨hSame, hWritten⟩ := LoggedRun.next_stream hStream hLogged
      have hLast : LoggedRun.Step floats host registry pipeline s.logged step logged := hLogged
      exact ⟨.streamed step _ hSame hWritten rfl rfl, [step], .single hLast⟩
    · cases h

theorem journal_logged_run {submitter : String} {steps : List JournalStep}
    (h : Run (JournaledRun.Step floats host registry pipeline) (.submitted submitter) steps s) :
    ∃ shown, Run (LoggedRun.Step floats host registry pipeline) .initial shown s.logged :=
  h.simulates fun _ _ _ hStep => hStep.moves.2

end

end Forge.Engine
