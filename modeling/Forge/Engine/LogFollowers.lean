import Forge.Engine.AfterAll
import Forge.Engine.Endings
import Forge.Engine.LogText

/-! # What followers receive

No thread of a run writes after its end. A follower has sent a prefix of the events written so far, and it
leaves its loop, for a last read, only after the end.
-/
namespace Forge.Engine
open Forge.Python Forge.Registry Forge.Theory
set_option autoImplicit false

variable {floats : FloatRepr} {host : Host} {registry : RegistryClient} {pipeline : PipelineConfig}
  {e : Event} {s t : Execution}

/-! ## The end of a run -/

/-- The status is terminal. -/
def Execution.Over (s : Execution) : Prop := s.run.status.isLive = false

theorem over_iff_of_same (hOver : s.Over ↔ s.main.isEnded = true) (hEnded : s.main.isEnded = false)
    (hStatus : t.run.status = s.run.status) (hMain : t.main.isEnded = false) :
    t.Over ↔ t.main.isEnded = true := by
  rw [hEnded] at hOver
  rw [Execution.Over, hStatus, hMain]
  exact hOver

theorem StopsEarly.over_iff (h : StopsEarly s t) (hOver : s.Over ↔ s.main.isEnded = true)
    (hEnded : s.main.isEnded = false) : t.Over ↔ t.main.isEnded = true := by
  cases h with
  | ends status error hStatus =>
    refine iff_of_true ?_ rfl
    rcases hStatus with rfl | rfl
    · rfl
    · rfl
  | aborts error => exact over_iff_of_same hOver hEnded rfl rfl

theorem finalStatus_isLive (integrityFailed : Bool) (statuses : List EntryStatus) :
    (finalStatus integrityFailed statuses).isLive = false := by
  rcases finalStatus_terminal integrityFailed statuses with hEq | hEq | hEq
  · rw [hEq]
    rfl
  · rw [hEq]
    rfl
  · rw [hEq]
    rfl

theorem Collects.isEnded {rest : List (List String)} {u : Execution} (h : Collects rest u t) :
    t.main.isEnded = false := by
  rcases h.main with ⟨scheduler, integrityFailed, hMain⟩ | ⟨error, hMain⟩
  · rw [hMain]
    rfl
  · rw [hMain]
    rfl

/-- The status is terminal from the end of the run on and not before. -/
theorem Moves.over_iff (hOver : s.Over ↔ s.main.isEnded = true)
    (h : Moves host registry pipeline s e t) : t.Over ↔ t.main.isEnded = true := by
  cases h with
  | resolved lockfile hMain hResolves => exact over_iff_of_same hOver (by rw [hMain]; rfl) rfl rfl
  | unresolved t hMain hNot hStops => exact hStops.over_iff hOver (by rw [hMain]; rfl)
  | planned scheduler plan hMain hPlans => exact iff_of_false Bool.noConfusion Bool.noConfusion
  | unplanned t hMain hNot hStops => exact hStops.over_iff hOver (by rw [hMain]; rfl)
  | worked job worker worker' action hWorker hPool hWorks => exact hOver
  | submittedAll scheduler rest hMain => exact over_iff_of_same hOver (by rw [hMain]; rfl) rfl rfl
  | collectedResult scheduler rest integrityFailed job result published hMain hFresh hWorker =>
    obtain ⟨jobs, hRun⟩ := collectResult_run (s := { s with collected := job :: s.collected }) scheduler rest
      integrityFailed job result published
    exact over_iff_of_same hOver (by rw [hMain]; rfl) (by rw [hRun])
      (collectResult_collects scheduler rest integrityFailed job result published).isEnded
  | collectedIntegrityError scheduler rest integrityFailed job name version expected actual hMain hFresh
      hWorker =>
    obtain ⟨jobs, hRun⟩ := collectIntegrityError_run (s := { s with collected := job :: s.collected })
      scheduler rest job
    exact over_iff_of_same hOver (by rw [hMain]; rfl) (by rw [hRun])
      (collectIntegrityError_collects scheduler rest job).isEnded
  | aborted error hMain hIdle => exact iff_of_true rfl rfl
  | finished scheduler integrityFailed now hMain => exact iff_of_true (finalStatus_isLive _ _) rfl
  | interrupted message hEnded hAborting => exact over_iff_of_same hOver hEnded rfl rfl
  | skippedLevel scheduler level rest hMain => exact over_iff_of_same hOver (by rw [hMain]; rfl) rfl rfl
  | refusedPool scheduler level rest hMain hLimit =>
    exact over_iff_of_same hOver (by rw [hMain]; rfl) rfl rfl
  | openedPool scheduler level rest hMain hLimit =>
    exact over_iff_of_same hOver (by rw [hMain]; rfl) rfl rfl
  | submittedSkipped scheduler job todo rest hMain hSkipped =>
    exact over_iff_of_same hOver (by rw [hMain]; rfl) rfl rfl
  | submittedUnknown scheduler job todo rest hMain hUnknown =>
    exact over_iff_of_same hOver (by rw [hMain]; rfl) rfl rfl
  | submitted scheduler job todo rest hMain hNot hJob =>
    exact over_iff_of_same hOver (by rw [hMain]; rfl) rfl rfl
  | collectedException scheduler rest integrityFailed job message hMain hFresh hWorker =>
    exact over_iff_of_same hOver (by rw [hMain]; rfl) rfl rfl
  | closedPool scheduler rest integrityFailed hMain hAll =>
    exact over_iff_of_same hOver (by rw [hMain]; rfl) rfl rfl

theorem PoolInv.idle_of_ended (h : PoolInv s) (hEnded : s.main.isEnded = true) : s.Idle := by
  cases hMain : s.main with
  | ended =>
    rw [PoolInv, hMain] at h
    exact h
  | _ =>
    rw [hMain] at hEnded
    cases hEnded

/-- After the end nothing writes. -/
theorem not_mayLog (hPool : PoolInv s) (hEnded : s.main.isEnded = true) (job : String) :
    s.mayLog job = false := by
  have hIdle := hPool.idle_of_ended hEnded
  rw [Execution.mayLog, Bool.or_eq_false_iff]
  constructor
  · split
    · rename_i worker hWorker
      simp [Worker.isActive, hIdle job worker hWorker]
    · rfl
  · split
    · rename_i hMain
      rw [hMain] at hEnded
      cases hEnded
    · rfl

/-- After the end nothing happens in the engine. -/
theorem Moves.not_ended (hPool : PoolInv s) (h : Moves host registry pipeline s e t) :
    s.main.isEnded = false := by
  cases h with
  | worked job worker worker' action hWorker hAllowed hWorks =>
    cases hEnded : s.main.isEnded with
    | false => rfl
    | true => exact absurd (hPool.idle_of_ended hEnded) (not_idle hWorker hWorks.not_done)
  | interrupted message hEnded hAborting => exact hEnded
  | _ => simp_all [Main.isEnded]

/-! ## What a follower has read -/

def FollowerPhase.lines : FollowerPhase → List String
  | .emitting lines => lines
  | .emittingLast lines => lines
  | _ => []

/-- Whether the follower has seen, or is bound to see, that the run is over. -/
def FollowerPhase.isClosing : FollowerPhase → Bool
  | .checking registered => !registered
  | .draining => true
  | .emittingLast _ => true
  | .ended => true
  | _ => false

def FollowerPhase.isLast : FollowerPhase → Bool
  | .emittingLast _ => true
  | .ended => true
  | _ => false

/-- The events written so far, seen from a follower: those sent, those read but not yet sent, and those to
be read later. -/
structure Follower.Reads (follower : Follower) (done pending later : List LogEvent) : Prop where
  sent : follower.sent = done.map LogEvent.sse
  lines : follower.phase.lines = pending.map LogEvent.payload
  offset : follower.offset = (logText (done ++ pending)).length
  last : follower.phase.isLast = true → later = []

def Follower.Tracks (written : List LogEvent) (follower : Follower) : Prop :=
  ∃ done pending later, written = done ++ pending ++ later ∧ follower.Reads done pending later

theorem Follower.tracks_new (written : List LogEvent) : Follower.Tracks written {} :=
  ⟨[], [], written, rfl, rfl, rfl, rfl, fun h => by cases h⟩

theorem Follower.Tracks.write {written : List LogEvent} {follower : Follower} (h : follower.Tracks written)
    (hOpen : follower.phase.isLast = false) (event : LogEvent) : follower.Tracks (written ++ [event]) := by
  obtain ⟨done, pending, later, rfl, hReads⟩ := h
  refine ⟨done, pending, later ++ [event], by simp, hReads.sent, hReads.lines, hReads.offset, fun hLast => ?_⟩
  rw [hOpen] at hLast
  cases hLast

/-! ## A step of a follower -/

/-- Whether the follower is to read the file. -/
def FollowerPhase.polls : FollowerPhase → Bool
  | .reading => true
  | .draining => true
  | _ => false

/-- What a step does to the lines read and to the events sent. -/
inductive Follower.Does (floats : FloatRepr) (streamer : LogStreamer) (now : String)
    (follower follower' : Follower) : Prop where
  | reads (polls : follower.phase.polls = true) (lines : follower.phase.lines = [])
      (read : (follower'.phase.lines, follower'.offset) = streamer.iterFileFrom follower.offset)
      (sent : follower'.sent = follower.sent)
  | emits (raw : String) (polls : follower.phase.polls = false)
      (lines : follower.phase.lines = raw :: follower'.phase.lines) (offset : follower'.offset = follower.offset)
      (sent : follower'.sent = follower.sent ++ (sse floats now raw).toList)
      (last : follower'.phase.isLast = follower.phase.isLast)
  | moves (polls : follower.phase.polls = false) (lines : follower.phase.lines = [])
      (later : follower'.phase.lines = []) (offset : follower'.offset = follower.offset)
      (sent : follower'.sent = follower.sent) (last : follower'.phase.isLast = true → follower.phase.isLast = true)

theorem Follower.step_does {streamer : LogStreamer} {status : RunStatus} {now : String}
    {follower follower' : Follower} (h : follower.step floats streamer status now = some follower') :
    follower.Does floats streamer now follower' := by
  cases hPhase : follower.phase with
  | reading =>
    rw [Follower.step, hPhase] at h
    cases h
    exact .reads (by rw [hPhase]; rfl) (by rw [hPhase]; rfl) rfl rfl
  | emitting lines =>
    rw [Follower.step, hPhase] at h
    cases lines with
    | nil =>
      cases h
      exact .moves (by rw [hPhase]; rfl) (by rw [hPhase]; rfl) rfl rfl rfl nofun
    | cons raw lines =>
      cases h
      exact .emits raw (by rw [hPhase]; rfl) (by rw [hPhase]; rfl) rfl rfl (by rw [hPhase]; rfl)
  | asking =>
    rw [Follower.step, hPhase] at h
    cases h
    exact .moves (by rw [hPhase]; rfl) (by rw [hPhase]; rfl) rfl rfl rfl nofun
  | checking registered =>
    rw [Follower.step, hPhase] at h
    cases h
    refine .moves (by rw [hPhase]; rfl) (by rw [hPhase]; rfl) ?_ rfl rfl ?_
    · dsimp only
      split
      · rfl
      · rfl
    · dsimp only
      split
      · exact nofun
      · exact nofun
  | draining =>
    rw [Follower.step, hPhase] at h
    cases h
    exact .reads (by rw [hPhase]; rfl) (by rw [hPhase]; rfl) rfl rfl
  | emittingLast lines =>
    rw [Follower.step, hPhase] at h
    cases lines with
    | nil =>
      cases h
      exact .moves (by rw [hPhase]; rfl) (by rw [hPhase]; rfl) rfl rfl rfl fun _ => by rw [hPhase]; rfl
    | cons raw lines =>
      cases h
      exact .emits raw (by rw [hPhase]; rfl) (by rw [hPhase]; rfl) rfl rfl (by rw [hPhase]; rfl)
  | ended =>
    rw [Follower.step, hPhase] at h
    cases h

/-- A read gets all that is left, and a line that is sent is one event of those read. -/
theorem Follower.step_tracks {streamer : LogStreamer} {status : RunStatus} {now : String}
    {written : List LogEvent} {follower follower' : Follower}
    (hText : streamer.combined.getD [] = logText written) (h : follower.Tracks written)
    (hStep : follower.step floats streamer status now = some follower') : follower'.Tracks written := by
  obtain ⟨done, pending, later, rfl, hReads⟩ := h
  cases Follower.step_does hStep with
  | reads hPolls hLines hRead hSent =>
    cases List.map_eq_nil_iff.mp (hReads.lines.symm.trans hLines)
    rw [List.append_nil] at hText ⊢
    rw [hReads.offset, List.append_nil, iterFileFrom_logText hText] at hRead
    obtain ⟨hRead, hOffset⟩ := Prod.mk.inj hRead
    exact ⟨done, later, [], by simp, hSent.trans hReads.sent, hRead, hOffset, fun _ => rfl⟩
  | emits raw hPolls hLines hOffset hSent hLast =>
    have hPending := hReads.lines.symm.trans hLines
    cases pending with
    | nil => cases hPending
    | cons event pending =>
      obtain ⟨hRaw, hRest⟩ := List.cons.inj hPending
      refine ⟨done ++ [event], pending, later, by simp, ?_, hRest.symm, ?_, ?_⟩
      · rw [hSent, hReads.sent, ← hRaw, sse_payload, List.map_append]
        rfl
      · rw [hOffset, hReads.offset, List.append_assoc]
        rfl
      · exact fun hThen => hReads.last (hLast ▸ hThen)
  | moves hPolls hLines hLater hOffset hSent hLast =>
    cases List.map_eq_nil_iff.mp (hReads.lines.symm.trans hLines)
    exact ⟨done, [], later, rfl, hSent.trans hReads.sent, hLater, hOffset.trans hReads.offset,
      fun h => hReads.last (hLast h)⟩

/-- A follower turns to its last read only after the end. -/
theorem Follower.step_closing {streamer : LogStreamer} {now : String} {follower follower' : Follower}
    (hRegistered : streamer.registered = false → s.Over)
    (hClosing : follower.phase.isClosing = true → s.Over)
    (hStep : follower.step floats streamer s.run.status now = some follower')
    (hThen : follower'.phase.isClosing = true) : s.Over := by
  cases hPhase : follower.phase with
  | reading =>
    rw [Follower.step, hPhase] at hStep
    cases hStep
    cases hThen
  | emitting lines =>
    rw [Follower.step, hPhase] at hStep
    cases lines with
    | nil =>
      cases hStep
      cases hThen
    | cons raw lines =>
      cases hStep
      cases hThen
  | asking =>
    rw [Follower.step, hPhase] at hStep
    cases hStep
    exact hRegistered (by simpa [FollowerPhase.isClosing] using hThen)
  | checking registered =>
    rw [Follower.step, hPhase] at hStep
    cases hStep
    dsimp only at hThen
    cases registered with
    | false => exact hClosing (by rw [hPhase]; rfl)
    | true =>
      cases hLive : s.run.status.isLive with
      | false => exact hLive
      | true => simp [goesOn, hLive, FollowerPhase.isClosing] at hThen
  | draining => exact hClosing (by rw [hPhase]; rfl)
  | emittingLast lines => exact hClosing (by rw [hPhase]; rfl)
  | ended => exact hClosing (by rw [hPhase]; rfl)

/-! ## The whole system -/

structure LoggedRun.Inv (s : LoggedRun) : Prop where
  text : s.streamer.combined.getD [] = logText s.written
  over_iff : s.execution.Over ↔ s.execution.main.isEnded = true
  pool : PoolInv s.execution
  registered : s.streamer.registered = false → s.execution.Over
  tracks : ∀ follower ∈ s.followers, follower.Tracks s.written
  closing : ∀ follower ∈ s.followers, follower.phase.isClosing = true → s.execution.Over

theorem LoggedRun.inv_initial : LoggedRun.initial.Inv where
  text := rfl
  over_iff := iff_of_false Bool.noConfusion Bool.noConfusion
  pool := poolInv_initial
  registered h := by cases h
  tracks follower h := by cases h
  closing follower h := by cases h

theorem FollowerPhase.isClosing_of_isLast {phase : FollowerPhase} (h : phase.isLast = true) :
    phase.isClosing = true := by
  cases phase with
  | emittingLast lines => rfl
  | ended => rfl
  | _ => cases h

theorem LoggedRun.Inv.next {s t : LoggedRun} {step : LogStep} (h : s.Inv)
    (hStep : LoggedRun.Step floats host registry pipeline s step t) : t.Inv := by
  rw [LoggedRun.Step, stepsOf] at hStep
  cases step with
  | execute event =>
    obtain ⟨execution, hExecute, rfl⟩ := Option.map_eq_some_iff.mp hStep
    have hMoves := Execution.Step.moves (show Execution.Step host registry pipeline _ _ _ from hExecute)
    have hRuns : ¬ s.execution.Over := by
      rw [h.over_iff, hMoves.not_ended h.pool]
      exact Bool.noConfusion
    exact {
      text := h.text
      over_iff := hMoves.over_iff h.over_iff
      pool := hMoves.poolInv Plans.nodup h.pool
      registered := fun hGone => absurd (h.registered hGone) hRuns
      tracks := h.tracks
      closing := fun follower hMem hClosing => absurd (h.closing follower hMem hClosing) hRuns }
  | write event =>
    simp only [LoggedRun.next] at hStep
    split at hStep
    · rename_i hMay
      cases hStep
      have hRuns : ¬ s.execution.Over := by
        rw [h.over_iff]
        intro hEnded
        rw [not_mayLog h.pool hEnded] at hMay
        cases hMay
      refine { h with text := ?_, tracks := ?_ }
      · simp [LogStreamer.write, h.text, logText]
      · intro follower hMem
        apply (h.tracks follower hMem).write
        rw [← Bool.not_eq_true]
        exact fun hLast => hRuns (h.closing follower hMem (FollowerPhase.isClosing_of_isLast hLast))
    · cases hStep
  | unregister =>
    simp only [LoggedRun.next] at hStep
    split at hStep
    · rename_i hEnded
      cases hStep
      exact { h with registered := fun _ => h.over_iff.mpr hEnded }
    · cases hStep
  | follow =>
    cases hStep
    refine { h with tracks := ?_, closing := ?_ }
    · intro follower hMem
      cases List.mem_append.mp hMem with
      | inl hOld => exact h.tracks follower hOld
      | inr hNew =>
        cases List.mem_singleton.mp hNew
        exact Follower.tracks_new s.written
    · intro follower hMem hClosing
      cases List.mem_append.mp hMem with
      | inl hOld => exact h.closing follower hOld hClosing
      | inr hNew =>
        cases List.mem_singleton.mp hNew
        cases hClosing
  | poll i now =>
    simp only [LoggedRun.next] at hStep
    split at hStep
    · cases hStep
    · rename_i follower hGet
      obtain ⟨follower', hFollower, rfl⟩ := Option.map_eq_some_iff.mp hStep
      have hMem := List.mem_of_getElem? hGet
      refine { h with tracks := ?_, closing := ?_ }
      · intro other hOther
        cases List.mem_or_eq_of_mem_set hOther with
        | inl hOld => exact h.tracks other hOld
        | inr hNew =>
          subst hNew
          exact Follower.step_tracks h.text (h.tracks follower hMem) hFollower
      · intro other hOther hClosing
        cases List.mem_or_eq_of_mem_set hOther with
        | inl hOld => exact h.closing other hOld hClosing
        | inr hNew =>
          subst hNew
          exact Follower.step_closing h.registered (h.closing follower hMem) hFollower hClosing

/-! ## The events received -/

/-- What a reader takes from one SSE event. -/
def readSse (floats : FloatRepr) (text : String) : Option LogEvent :=
  if startsWith text "data: " then
    match floats.loads (strip (dropPrefixChars text 6)) with
    | .ok (.obj members) =>
      match members.lookup "ts", members.lookup "job", members.lookup "line" with
      | some (.str ts), some (.str job), some (.str line) => some ⟨ts, job, line⟩
      | _, _, _ => none
    | _ => none
  else none

theorem readSse_sse (event : LogEvent) : readSse floats event.sse = some event := by
  have hStarts : startsWith event.sse "data: " = true := by
    simp [startsWith, LogEvent.sse, List.isPrefixOf]
  have hDrop : strip (dropPrefixChars event.sse 6) = dumps .compact event.toJson := by
    have hChars : dropPrefixChars event.sse 6 = String.ofList (encode .compact event.toJson ++ ['\n', '\n']) := by
      simp [dropPrefixChars, LogEvent.sse, dumps]
    rw [hChars, strip, String.toList_ofList, event.stripChars_encode (by simp [isSpace]), dumps]
  rw [readSse, if_pos hStarts, hDrop, loads_dumps floats .compact event.canonical]
  rfl

theorem follower_receives {steps : List LogStep} {s : LoggedRun} {follower : Follower}
    (hRun : Run (LoggedRun.Step floats host registry pipeline) .initial steps s)
    (hFollower : follower ∈ s.followers) (hEnded : follower.phase = .ended) :
    follower.sent.map (readSse floats) = s.written.map some ∧
      s.streamer.combined.getD [] = logText s.written ∧
      s.execution.run.status.isLive = false := by
  have hKeeps := hRun.invariant fun s step t (h : s.Inv) hStep => h.next hStep
  have hInv := hKeeps LoggedRun.inv_initial
  refine ⟨?_, hInv.text, hInv.closing follower hFollower (by rw [hEnded]; rfl)⟩
  obtain ⟨done, pending, later, hWritten, hReads⟩ := hInv.tracks follower hFollower
  have hLines := hReads.lines
  rw [hEnded] at hLines
  cases List.map_eq_nil_iff.mp hLines.symm
  cases hReads.last (by rw [hEnded]; rfl)
  rw [hWritten, hReads.sent, List.append_nil, List.append_nil, List.map_map]
  apply List.map_congr_left
  intro event _
  rw [Function.comp_apply, readSse_sse]

def Follower.hasEnded (follower : Follower) : Bool :=
  match follower.phase with
  | .ended => true
  | _ => false

theorem Follower.hasEnded_iff {follower : Follower} : follower.hasEnded = true ↔ follower.phase = .ended := by
  unfold Follower.hasEnded
  split
  · rename_i hPhase
    exact iff_of_true rfl hPhase
  · rename_i hPhase
    exact iff_of_false Bool.noConfusion hPhase

def pollsOf (i n : Nat) : List LogStep := List.replicate n (.poll i "10:03")

/-- One follower starts before the first write, the other after the status checker is gone. -/
def soloSteps : List LogStep :=
  [.execute .resolve, .follow] ++ pollsOf 0 4 ++
  [.execute .plan, .execute .enterLevel, .execute .submit, .execute .submit,
    .execute (.work "build" .start), .write ⟨"10:00", "build", "Starting job build"⟩] ++ pollsOf 0 2 ++
  [.execute (.work "build" .launch), .write ⟨"10:01", "build", "[compile] \"é\u2028\\\n\""⟩,
    .execute (.work "build" (.exit 0)), .execute (.work "build" (.lookup none)),
    .execute (.work "build" .finish), .execute (.collect "build"), .execute .closePool,
    .execute (.finish "10:02"), .unregister, .follow] ++ pollsOf 0 6 ++ pollsOf 1 8

theorem follower_receives_solo : ∃ s : LoggedRun,
    Run (LoggedRun.Step zeroFloats exampleHost emptyRegistry soloPipeline) .initial soloSteps s ∧
      s.written.length = 2 ∧ s.followers.length = 2 ∧
      ∀ follower ∈ s.followers, follower.sent.map (readSse zeroFloats) = s.written.map some ∧
        s.streamer.combined.getD [] = logText s.written ∧ s.execution.run.status.isLive = false := by
  have hSome : ((execute (LoggedRun.next zeroFloats exampleHost emptyRegistry soloPipeline) .initial
      soloSteps).any fun s => s.written.length = 2 ∧ s.followers.length = 2 ∧
        s.followers.all Follower.hasEnded = true) = true := by decide +kernel
  obtain ⟨s, hExecute, hEnd⟩ := (Option.any_eq_true _ _).mp hSome
  obtain ⟨hWritten, hTwo, hAll⟩ := of_decide_eq_true hEnd
  have hRun := run_stepsOf_iff.mpr hExecute
  refine ⟨s, hRun, hWritten, hTwo, fun follower hMem => ?_⟩
  exact follower_receives hRun hMem (Follower.hasEnded_iff.mp (List.all_eq_true.mp hAll follower hMem))

end Forge.Engine
