import Forge.Engine.Execution
import Forge.Python.JsonText
import Forge.Python.Lines

/-! # Log streaming

`LogStreamer` for one run, beside the execution of that run. The threads of the run append events to
`combined.jsonl`, and any number of followers read it while it grows. An append of one line is one step, as
is every access of a follower to the file, to the table of status checkers and to the status.
-/
namespace Forge.Engine
open Forge.Python Forge.Registry Forge.Theory
set_option autoImplicit false

structure LogEvent where
  ts : String
  job : String
  line : String
  deriving DecidableEq

def LogEvent.toJson (event : LogEvent) : Json :=
  .obj [("ts", .str event.ts), ("job", .str event.job), ("line", .str event.line)]

def LogEvent.payload (event : LogEvent) : String := dumps .compact event.toJson ++ "\n"

/-- The text of `combined.jsonl`, `none` while there is no such file, and whether the run has a status
checker. The payloads are ASCII, so offsets into the file count characters. -/
structure LogStreamer where
  combined : Option (List Char) := none
  registered : Bool := true

def LogStreamer.write (streamer : LogStreamer) (event : LogEvent) : LogStreamer :=
  { streamer with combined := some (streamer.combined.getD [] ++ event.payload.toList) }

def LogStreamer.unregisterStatusChecker (streamer : LogStreamer) : LogStreamer :=
  { streamer with registered := false }

def LogStreamer.iterFileFrom (streamer : LogStreamer) (offset : Nat) : List String × Nat :=
  match streamer.combined with
  | none => ([], offset)
  | some text =>
    (splitLinesKeepends (String.ofList (universalNewlines (text.drop offset))), max offset text.length)

/-! ## Followers -/

/-- What a line of the file is sent as. -/
def sse (floats : FloatRepr) (now raw : String) : Option String :=
  let raw := strip raw
  if raw = "" then none
  else
    let event :=
      match floats.loads raw with
      | .ok event => event
      | .error _ => LogEvent.toJson ⟨now, "system", raw⟩
    some ("data: " ++ dumps .compact event ++ "\n\n")

/-- Where a call of `stream_sse` with `follow` stands. -/
inductive FollowerPhase where
  | reading
  | emitting (lines : List String)
  | asking
  | checking (registered : Bool)
  | draining
  | emittingLast (lines : List String)
  | ended

structure Follower where
  phase : FollowerPhase := .reading
  offset : Nat := 0
  sent : List String := []

def Follower.emit (floats : FloatRepr) (now : String) (follower : Follower) (raw : String) : Follower :=
  { follower with sent := follower.sent ++ (sse floats now raw).toList }

/-- The statuses with which a follower goes on. -/
def RunStatus.isLive : RunStatus → Bool
  | .queued => true
  | .running => true
  | _ => false

/-- Without a checker the status is `unknown`, which is none of those either. -/
def goesOn (registered : Bool) (status : RunStatus) : Bool := registered && status.isLive

def Follower.step (floats : FloatRepr) (streamer : LogStreamer) (status : RunStatus) (now : String)
    (follower : Follower) : Option Follower :=
  match follower.phase with
  | .reading =>
    let (lines, offset) := streamer.iterFileFrom follower.offset
    some { follower with phase := .emitting lines, offset }
  | .emitting [] => some { follower with phase := .asking }
  | .emitting (raw :: lines) => some { follower.emit floats now raw with phase := .emitting lines }
  | .asking => some { follower with phase := .checking streamer.registered }
  | .checking registered =>
    some { follower with phase := if goesOn registered status then .reading else .draining }
  | .draining =>
    let (lines, offset) := streamer.iterFileFrom follower.offset
    some { follower with phase := .emittingLast lines, offset }
  | .emittingLast [] => some { follower with phase := .ended }
  | .emittingLast (raw :: lines) =>
    some { follower.emit floats now raw with phase := .emittingLast lines }
  | .ended => none

/-! ## A run with its followers -/

/-- `LogStreamer.write` is called by the workers while they are at work on their job, and by the main
thread in the loop over `as_completed`. -/
def Execution.mayLog (s : Execution) (job : String) : Bool :=
  (match s.futures.get? job with
    | some worker => worker.isActive
    | none => false) ||
  match s.main with
  | .collecting _ _ _ => true
  | _ => false

/-- `written` lists the writes that have completed. -/
structure LoggedRun where
  execution : Execution := .initial
  streamer : LogStreamer := {}
  written : List LogEvent := []
  followers : List Follower := []

def LoggedRun.initial : LoggedRun := {}

inductive LogStep where
  | execute (event : Event)
  | write (event : LogEvent)
  | unregister
  | follow
  | poll (i : Nat) (now : String)

def LoggedRun.next (floats : FloatRepr) (host : Host) (registry : RegistryClient)
    (pipeline : PipelineConfig) (s : LoggedRun) : LogStep → Option LoggedRun
  | .execute event =>
    (executePipeline host registry pipeline s.execution event).map fun execution =>
      { s with execution }
  | .write event =>
    if s.execution.mayLog event.job then
      some { s with streamer := s.streamer.write event, written := s.written ++ [event] }
    else none
  | .unregister =>
    if s.execution.main.isEnded then
      some { s with streamer := s.streamer.unregisterStatusChecker }
    else none
  | .follow => some { s with followers := s.followers ++ [{}] }
  | .poll i now =>
    match s.followers[i]? with
    | none => none
    | some follower =>
      (follower.step floats s.streamer s.execution.run.status now).map fun follower' =>
        { s with followers := s.followers.set i follower' }

def LoggedRun.Step (floats : FloatRepr) (host : Host) (registry : RegistryClient)
    (pipeline : PipelineConfig) : LoggedRun → LogStep → LoggedRun → Prop :=
  stepsOf (LoggedRun.next floats host registry pipeline)

end Forge.Engine
