import Forge.Cli.Commands
import Forge.Engine.Transcripts

/-! # What the client shows of a run

Between the event that a thread writes and the line that a terminal shows there are two encodings in JSON, a
file, and a stream that is cut into lines again. The line is the one that was written, whatever is in it.
-/
namespace Forge.Cli
open Forge.Python Forge.Registry Forge.Engine Forge.Theory
set_option autoImplicit false

variable {floats : FloatRepr} {repr : Json → String} {iterLines : List String → List String}
  {host : Host} {registry : RegistryClient} {pipeline : PipelineConfig}

/-- The lines of a body do not depend on the parts in which it comes. A line end of two characters may fall between
two of them, so that is left open. -/
def ReadsLines (iterLines : List String → List String) : Prop :=
  ∀ parts, '\r' ∉ (joined parts).toList → iterLines parts = splitLines (joined parts)

def shown (event : LogEvent) : String := "[" ++ event.ts ++ "] [" ++ event.job ++ "] " ++ event.line

/-! ## The lines of the stream -/

theorem joined_cons (part : String) (parts : List String) :
    (joined (part :: parts)).toList = part.toList ++ (joined parts).toList := by
  simp [joined]

def dataLine (event : LogEvent) : String := "data: " ++ dumps .compact event.toJson

theorem sse_toList (event : LogEvent) : event.sse.toList = (dataLine event).toList ++ '\n' :: ['\n'] := by
  simp [LogEvent.sse, dataLine]

theorem isPrintable_dataLine (event : LogEvent) : ∀ c ∈ (dataLine event).toList, isPrintable c = true := by
  rw [dataLine, String.toList_append, List.forall_mem_append]
  refine ⟨List.all_eq_true.mp (by decide : "data: ".toList.all isPrintable = true), ?_⟩
  rw [dumps, String.toList_ofList]
  exact event.isPrintable_encode

theorem isLineBreak_dataLine (event : LogEvent) : ∀ c ∈ (dataLine event).toList, isLineBreak c = false :=
  fun c hc => isLineBreak_of_isPrintable (isPrintable_dataLine event c hc)

theorem not_mem_sse (events : List LogEvent) : '\r' ∉ (joined (events.map LogEvent.sse)).toList := by
  induction events with
  | nil => simp [joined]
  | cons event events ih =>
    rw [List.map_cons, joined_cons, List.mem_append, not_or]
    refine ⟨fun hMem => ?_, ih⟩
    rw [sse_toList, List.mem_append] at hMem
    cases hMem with
    | inl hData => exact absurd (isPrintable_dataLine event _ hData) (by decide)
    | inr hEnd => simp at hEnd

/-- Every event gives a line of its own and an empty one. -/
theorem splitLines_sse (events : List LogEvent) :
    splitLines (joined (events.map LogEvent.sse)) = events.flatMap fun event => [dataLine event, ""] := by
  induction events with
  | nil => rfl
  | cons event events ih =>
    have hBody : ((dataLine event).toList ++ ['\n']).takeWhile (fun c => !isLineBreak c) =
        (dataLine event).toList := by
      rw [List.takeWhile_append_of_pos fun c hc => by rw [isLineBreak_dataLine event c hc]; rfl,
        List.takeWhile_cons_of_neg (by decide), List.append_nil]
    simp only [splitLines, lineBodies] at ih ⊢
    rw [List.map_cons, joined_cons, sse_toList, List.append_assoc, List.cons_append, List.cons_append,
      List.nil_append, splitLinesChars_line (isLineBreak_dataLine event), splitLinesChars_newline, List.map_cons,
      List.map_cons, hBody, List.map_cons, List.map_cons, ih, String.ofList_toList]
    rfl

/-! ## The lines that are printed -/

theorem printLines_event (event : LogEvent) (lines : List String) :
    printLines floats repr (dataLine event :: "" :: lines) =
      (shown event :: (printLines floats repr lines).1, (printLines floats repr lines).2) := by
  have hStarts : startsWith (dataLine event) "data: " = true := by simp [startsWith, dataLine, List.isPrefixOf]
  have hNonempty : dataLine event ≠ "" := by
    intro hEmpty
    rw [hEmpty] at hStarts
    cases hStarts
  have hDrop : dropPrefixChars (dataLine event) 6 = dumps .compact event.toJson := by
    simp [dropPrefixChars, dataLine]
  simp only [printLines, hStarts, hDrop, loads_dumps floats .compact event.canonical, hNonempty]
  rfl

theorem printLines_events (events : List LogEvent) :
    printLines floats repr (events.flatMap fun event => [dataLine event, ""]) = (events.map shown, true) := by
  induction events with
  | nil => rfl
  | cons event events ih =>
    rw [List.flatMap_cons, List.cons_append, List.cons_append, List.nil_append, printLines_event, ih, List.map_cons]

theorem logs_sse (hLines : ReadsLines iterLines) {reply : Reply} {events : List LogEvent}
    (hStatus : reply.statusCode = 200) (hText : reply.text = joined (events.map LogEvent.sse)) :
    logs floats repr iterLines reply = { stdout := events.map shown } := by
  have hHere : iterLines reply.parts = splitLines (joined (events.map LogEvent.sse)) := by
    rw [← hText]
    exact hLines reply.parts (by rw [← Reply.text, hText]; exact not_mem_sse events)
  rw [logs, hStatus, hHere, splitLines_sse, printLines_events]
  rfl

/-! ## Runs -/

/-- What a request without `follow` is sent. -/
def backlog (floats : FloatRepr) (now : String) (streamer : LogStreamer) : List String :=
  (streamer.iterFileFrom 0).1.filterMap (sse floats now)

theorem backlog_eq {now : String} {s : LoggedRun} (h : s.Inv) :
    backlog floats now s.streamer = s.written.map LogEvent.sse := by
  have hText : s.streamer.combined.getD [] = logText ([] ++ s.written) := h.text
  have hRead := iterFileFrom_logText hText
  rw [backlog, show (0 : Nat) = (logText []).length from rfl, hRead]
  induction s.written with
  | nil => rfl
  | cons event rest ih => rw [List.map_cons, List.filterMap_cons_some (sse_payload now event), ih, List.map_cons]

/-- After the end of a run its followers are all that changes. -/
theorem quiet_of_over {s t : LoggedRun} {step : LogStep} (h : s.Inv) (hOver : s.execution.Over)
    (hStep : LoggedRun.Step floats host registry pipeline s step t) :
    t.execution = s.execution ∧ t.written = s.written := by
  have hEnded := h.over_iff.mp hOver
  rw [LoggedRun.Step, stepsOf] at hStep
  cases step with
  | execute event =>
    obtain ⟨execution, hExecute, rfl⟩ := Option.map_eq_some_iff.mp hStep
    have hMoves := Execution.Step.moves (show Execution.Step host registry pipeline _ _ _ from hExecute)
    rw [hMoves.not_ended h.pool] at hEnded
    cases hEnded
  | write event =>
    simp only [LoggedRun.next, not_mayLog h.pool hEnded event.job, Bool.false_eq_true, if_false] at hStep
    cases hStep
  | unregister => exact LoggedRun.next_stream rfl hStep
  | follow => exact LoggedRun.next_stream rfl hStep
  | poll i now => exact LoggedRun.next_stream rfl hStep

theorem run_quiet {s t : LoggedRun} {steps : List LogStep} (h : s.Inv) (hOver : s.execution.Over)
    (hRun : Run (LoggedRun.Step floats host registry pipeline) s steps t) :
    t.execution = s.execution ∧ t.written = s.written := by
  have hKeeps := hRun.invariant fun u step v
      (hHere : u.Inv ∧ u.execution = s.execution ∧ u.written = s.written) hStep => by
    obtain ⟨hInv, hExecution, hWritten⟩ := hHere
    obtain ⟨hSame, hSameWritten⟩ := quiet_of_over hInv (by rw [hExecution]; exact hOver) hStep
    exact And.intro (hInv.next hStep) ⟨hSame.trans hExecution, hSameWritten.trans hWritten⟩
  exact (hKeeps ⟨h, rfl, rfl⟩).2

/-! ## The answers of the engine -/

def statusText : RunStatus → String
  | .queued => "queued"
  | .running => "running"
  | .succeeded => "succeeded"
  | .failed => "failed"
  | .integrityFailure => "integrity_failure"
  | .cycleFailure => "cycle_failure"
  | .conflictFailure => "conflict_failure"

/-- The responses to `run`, for a run that was accepted. Of the other fields of a status `run` reads none. -/
structure Answers (runId : String) (sent : List String) (found : RunState) (submitted streamed status : Reply) :
    Prop where
  submitted_ok : submitted.statusCode = 200
  submitted_json : submitted.json = some (.obj [("run_id", .str runId)])
  streamed_ok : streamed.statusCode = 200
  streamed_text : streamed.text = joined sent
  status_json : ∃ rest, status.json = some (.obj (("status", .str (statusText found.status)) :: rest))

theorem Answers.hasSucceeded {runId : String} {sent : List String} {found : RunState}
    {submitted streamed status : Reply} (h : Answers runId sent found submitted streamed status) :
    Cli.hasSucceeded status.json = decide (found.status = .succeeded) := by
  obtain ⟨rest, hJson⟩ := h.status_json
  rw [hJson]
  cases found.status <;> rfl

/-- `logs` prints the lines written so far. `run` with `--follow` prints all lines of the run, in their order and
whatever they contain, and its exit code tells whether the run has succeeded, however long it waits with its last
request. -/
theorem client_shows {steps : List LogStep} {s : LoggedRun} (hLines : ReadsLines iterLines)
    (hRun : Run (LoggedRun.Step floats host registry pipeline) .initial steps s) :
    (∀ now reply, reply.statusCode = 200 → reply.text = joined (backlog floats now s.streamer) →
      logs floats repr iterLines reply = { stdout := s.written.map shown }) ∧
    ∀ follower ∈ s.followers, follower.phase = .ended → ∀ later t,
      Run (LoggedRun.Step floats host registry pipeline) s later t → ∀ runId submitted streamed status,
        Answers runId follower.sent t.execution.run submitted streamed status →
          run floats repr iterLines true submitted streamed status =
            { stdout := runId :: t.written.map shown
              exitCode := if t.execution.run.status = .succeeded then 0 else 1 } ∧
          t.execution.run.status.isLive = false := by
  have hInv := logged_inv hRun
  refine ⟨fun now reply hStatus hText => ?_, ?_⟩
  · exact logs_sse hLines hStatus (by rw [hText, backlog_eq hInv])
  · intro follower hFollower hEnded later t hLater runId submitted streamed status hAnswers
    have hOver := hInv.closing follower hFollower (by rw [hEnded]; rfl)
    obtain ⟨hExecution, hWritten⟩ := run_quiet hInv hOver hLater
    have hText : streamed.text = joined (t.written.map LogEvent.sse) := by
      rw [hAnswers.streamed_text, hInv.received hFollower hEnded, hWritten]
    have hLogs : logs floats repr iterLines streamed = { stdout := t.written.map shown } :=
      logs_sse hLines hAnswers.streamed_ok hText
    refine ⟨?_, by rw [hExecution]; exact hOver⟩
    have hId : runIdOf? repr submitted.json = some runId := by
      rw [hAnswers.submitted_json]
      rfl
    rw [run, hAnswers.submitted_ok, hId, hLogs, hAnswers.hasSucceeded]
    simp

def lineReader (parts : List String) : List String := splitLines (joined parts)

theorem client_shows_solo : ∃ (s : LoggedRun) (follower : Follower) (streamed : Reply),
    Run (LoggedRun.Step zeroFloats exampleHost emptyRegistry soloPipeline) .initial soloSteps s ∧
    follower ∈ s.followers ∧ s.written.length = 2 ∧
    run zeroFloats (fun _ => "") lineReader true ⟨200, [], some (.obj [("run_id", .str "1f2e3d4c")])⟩ streamed
      ⟨200, [], some (.obj [("status", .str "succeeded")])⟩ = { stdout := "1f2e3d4c" :: s.written.map shown } := by
  have hSome : ((execute (LoggedRun.next zeroFloats exampleHost emptyRegistry soloPipeline) .initial
      soloSteps).any fun s => s.written.length = 2 ∧ s.execution.run.status = .succeeded ∧ s.followers.length = 2 ∧
        s.followers.all Follower.hasEnded = true) = true := by decide +kernel
  obtain ⟨s, hExecute, hEnd⟩ := (Option.any_eq_true _ _).mp hSome
  obtain ⟨hWritten, hSucceeded, hTwo, hAll⟩ := of_decide_eq_true hEnd
  have hRun := run_stepsOf_iff.mpr hExecute
  obtain ⟨follower, hFollower⟩ := List.exists_mem_of_length_pos (show 0 < s.followers.length by omega)
  have hEnded := Follower.hasEnded_iff.mp (List.all_eq_true.mp hAll follower hFollower)
  have hAnswers : Answers "1f2e3d4c" follower.sent s.execution.run
      ⟨200, [], some (.obj [("run_id", .str "1f2e3d4c")])⟩ ⟨200, [joined follower.sent], none⟩
      ⟨200, [], some (.obj [("status", .str "succeeded")])⟩ :=
    ⟨rfl, rfl, rfl, by simp [Reply.text, joined], [], by rw [hSucceeded]; rfl⟩
  have hLines : ReadsLines lineReader := fun _ _ => rfl
  refine ⟨s, follower, ⟨200, [joined follower.sent], none⟩, hRun, hFollower, hWritten, ?_⟩
  refine ((client_shows hLines hRun).2 follower hFollower hEnded [] s (.nil s) _ _ _ _ hAnswers).1.trans ?_
  rw [hSucceeded]
  rfl

end Forge.Cli
