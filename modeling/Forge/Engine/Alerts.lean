import Forge.Engine.Endings
import Forge.Engine.Transcripts

/-! # The alerts of a run

A run is announced when it is submitted, each download that did not match when its job is collected, and the way
in which the run has ended. The handler of all other exceptions is silent.
-/
namespace Forge.Engine
open Forge.Python Forge.Registry Forge.Theory
set_option autoImplicit false

variable {floats : FloatRepr} {host : Host} {registry : RegistryClient} {pipeline : PipelineConfig}
  {job submitter : String} {events : List Event} {e : Event} {u v : Execution}

/-- A download that the main thread has learnt about. -/
structure Mismatch where
  job : String
  name : String
  version : String
  expected : String
  actual : String

def Mismatch.alert (m : Mismatch) : Alert := .integrityFailure m.name m.version m.expected m.actual

def Mismatch.line (m : Mismatch) : String := integrityLine m.name m.version m.expected m.actual

def Worker.mismatch (job : String) : Worker → Option Mismatch
  | .raised (.integrityError name version expected actual) => some ⟨job, name, version, expected, actual⟩
  | _ => none

def Execution.mismatch (s : Execution) : Event → Option Mismatch
  | .collect job => (s.futures.get? job).bind fun worker => worker.mismatch job
  | _ => none

/-- The alert about the end of a run. A run without a completion time has ended in the handler of exceptions. -/
def RunState.closing (run : RunState) : Option Alert :=
  match run.status with
  | .queued => none
  | .running => none
  | .succeeded => some .pipelineSucceeded
  | .failed => run.completedAt.map fun _ => .pipelineFailed (failing run.jobs)
  | .integrityFailure => some (.pipelineFailed (failing run.jobs))
  | .cycleFailure => run.error.map .resolutionFailure
  | .conflictFailure => run.error.map .resolutionFailure

theorem RunState.closing_of_isLive {run : RunState} (h : run.status.isLive = true) : run.closing = none := by
  cases hStatus : run.status with
  | queued => simp [closing, hStatus]
  | running => simp [closing, hStatus]
  | _ =>
    rw [hStatus] at h
    cases h

theorem catchAlert_eq (job : String) (worker : Worker) :
    catchAlert worker = (worker.mismatch job).map Mismatch.alert := by
  cases worker with
  | raised exc => cases exc <;> rfl
  | _ => rfl

theorem catchLine_eq (job : String) (worker : Worker) :
    catchLine worker = (worker.mismatch job).map Mismatch.line := by
  cases worker with
  | raised exc => cases exc <;> rfl
  | _ => rfl

theorem Worker.mismatch_job {worker : Worker} {m : Mismatch} (h : worker.mismatch job = some m) : m.job = job := by
  cases worker with
  | raised exc =>
    cases exc with
    | integrityError name version expected actual =>
      cases h
      rfl
    | exception message => cases h
  | _ => cases h

theorem Execution.mismatch_iff {m : Mismatch} : u.mismatch e = some m ↔
    ∃ worker, e = .collect m.job ∧ u.futures.get? m.job = some worker ∧ worker.mismatch m.job = some m := by
  constructor
  · intro h
    cases e with
    | collect job =>
      obtain ⟨worker, hWorker, hMismatch⟩ := Option.bind_eq_some_iff.mp h
      cases Worker.mismatch_job hMismatch
      exact ⟨worker, rfl, hWorker, hMismatch⟩
    | _ => cases h
  · rintro ⟨worker, rfl, hWorker, hMismatch⟩
    exact Option.bind_eq_some_iff.mpr ⟨worker, hWorker, hMismatch⟩

/-! ## What a step sends -/

theorem Execution.alert_of_isLive (h : v.run.status.isLive = true) :
    u.alert v e = (u.mismatch e).map Mismatch.alert := by
  have hResolution : resolutionAlert v.run = none := by
    cases hStatus : v.run.status with
    | queued => simp [resolutionAlert, hStatus]
    | running => simp [resolutionAlert, hStatus]
    | _ =>
      rw [hStatus] at h
      cases h
  cases e with
  | resolve => exact hResolution
  | plan => exact hResolution
  | collect job =>
    rw [Execution.alert, Execution.mismatch]
    cases u.futures.get? job with
    | none => rfl
    | some worker => exact catchAlert_eq job worker
  | finish now =>
    cases hStatus : v.run.status with
    | queued => simp [Execution.alert, Execution.mismatch, hStatus]
    | running => simp [Execution.alert, Execution.mismatch, hStatus]
    | _ =>
      rw [hStatus] at h
      cases h
  | _ => rfl

theorem Moves.same_completedAt (h : Moves host registry pipeline u e v) (hOpen : v.main.isEnded = false) :
    v.run.completedAt = u.run.completedAt := by
  cases h with
  | unresolved v hMain hNot hStops => cases hStops <;> rfl
  | unplanned v hMain hNot hStops => cases hStops <;> rfl
  | collectedResult scheduler rest integrityFailed job result published hMain hFresh hWorker =>
    obtain ⟨jobs, hRun⟩ := collectResult_run (s := { u with collected := job :: u.collected }) scheduler rest
      integrityFailed job result published
    rw [hRun]
  | collectedIntegrityError scheduler rest integrityFailed job name version expected actual hMain hFresh
      hWorker =>
    obtain ⟨jobs, hRun⟩ := collectIntegrityError_run (s := { u with collected := job :: u.collected })
      scheduler rest job
    rw [hRun]
  | finished scheduler integrityFailed now hMain => cases hOpen
  | _ => rfl

/-- The steps that end a run. -/
inductive Ending (u : Execution) : Event → Execution → Prop where
  | stopped (event : Event) (status : RunStatus) (error : Option String) (hEvent : event = .resolve ∨ event = .plan)
      (hStatus : status = .cycleFailure ∨ status = .conflictFailure) : Ending u event (u.ends status error)
  | aborted (error : String) : Ending u .abort (u.ends .failed (some error))
  | finished (scheduler : DAGScheduler) (integrityFailed : Bool) (now : String)
      (hMain : u.main = .levels scheduler [] integrityFailed) : Ending u (.finish now) (u.finish integrityFailed now)

theorem StopsEarly.ending (h : StopsEarly u v) (hEvent : e = .resolve ∨ e = .plan) (hEnded : v.main.isEnded = true) :
    Ending u e v := by
  cases h with
  | ends status error hStatus => exact .stopped e status error hEvent hStatus
  | aborts error => cases hEnded

theorem Moves.ending (h : Moves host registry pipeline u e v) (hOpen : u.main.isEnded = false)
    (hEnded : v.main.isEnded = true) : Ending u e v := by
  cases h with
  | unresolved v hMain hNot hStops => exact hStops.ending (.inl rfl) hEnded
  | unplanned v hMain hNot hStops => exact hStops.ending (.inr rfl) hEnded
  | collectedResult scheduler rest integrityFailed job result published hMain hFresh hWorker =>
    rw [(collectResult_collects scheduler rest integrityFailed job result published).isEnded] at hEnded
    cases hEnded
  | collectedIntegrityError scheduler rest integrityFailed job name version expected actual hMain hFresh
      hWorker =>
    rw [(collectIntegrityError_collects scheduler rest job).isEnded] at hEnded
    cases hEnded
  | worked job worker worker' action hWorker hPool hWorks =>
    rw [show (u.worked job worker action worker').main = u.main from rfl, hOpen] at hEnded
    cases hEnded
  | aborted error hMain hIdle => exact .aborted error
  | finished scheduler integrityFailed now hMain => exact .finished scheduler integrityFailed now hMain
  | _ => cases hEnded

/-- A step that ends the run sends the alert about its end, and no other. -/
theorem Ending.alert (h : Ending u e v) (hCompleted : u.run.completedAt = none) :
    u.mismatch e = none ∧ u.alert v e = v.run.closing := by
  cases h with
  | stopped event status error hEvent hStatus =>
    rcases hEvent with rfl | rfl <;> rcases hStatus with rfl | rfl <;> exact ⟨rfl, rfl⟩
  | aborted error =>
    refine ⟨rfl, ?_⟩
    change none = u.run.completedAt.map fun _ => Alert.pipelineFailed (failing u.run.jobs)
    rw [hCompleted]
    rfl
  | finished scheduler integrityFailed now hMain =>
    refine ⟨rfl, ?_⟩
    rcases finalStatus_terminal integrityFailed (u.run.jobs.values.map JobEntry.status) with hStatus | hStatus |
      hStatus <;> simp [Execution.alert, RunState.closing, Execution.finish, hStatus]

/-! ## Mismatches and entries -/

/-- What holds of the run itself in every state. -/
structure Orderly (s : Execution) : Prop where
  pool : PoolInv s
  over_iff : s.Over ↔ s.main.isEnded = true
  completedAt : s.main.isEnded = false → s.run.completedAt = none
  flag : s.main.integrityFailed = true → ∃ job, s.run.jobs.get? job = some integrityEntry

theorem Worker.Yields.mismatch {worker : Worker} {entry : JobEntry} (h : worker.Yields entry) (job : String)
    (hEntry : entry = integrityEntry) : ∃ m : Mismatch, m.job = job ∧ worker.mismatch job = some m := by
  cases h with
  | result result published => cases congrArg JobEntry.status hEntry
  | integrityError name version expected actual => exact ⟨⟨job, name, version, expected, actual⟩, rfl, rfl⟩

theorem Moves.mismatch_entry {m : Mismatch} (h : Moves host registry pipeline u e v) (hMismatch : u.mismatch e = some m) :
    v.run.jobs.get? m.job = some integrityEntry := by
  obtain ⟨worker, rfl, hWorker, hRaised⟩ := Execution.mismatch_iff.mp hMismatch
  cases h with
  | collectedResult scheduler rest integrityFailed _ result published hMain hFresh hReturned =>
    cases hWorker.symm.trans hReturned
    cases hRaised
  | collectedIntegrityError scheduler rest integrityFailed _ name version expected actual hMain hFresh hHere =>
    simp only [Execution.collectIntegrityError]
    split
    · exact (Dict.get?_set ..).trans (if_pos rfl)
    · exact (Dict.get?_set ..).trans (if_pos rfl)
  | collectedException scheduler rest integrityFailed _ message hMain hFresh hHere =>
    cases hWorker.symm.trans hHere
    cases hRaised

/-- An integrity failure is recorded exactly when a mismatch is caught. -/
theorem run_mismatch (hRun : Run (Execution.Step host registry pipeline) .initial events u)
    (hStep : Execution.Step host registry pipeline u e v) :
    (∀ m, u.mismatch e = some m → m.job ∉ u.run.jobs.keys) ∧
    ∀ job, v.run.jobs.get? job = some integrityEntry ↔
      u.run.jobs.get? job = some integrityEntry ∨ ∃ m, u.mismatch e = some m ∧ m.job = job := by
  have hMove := hStep.moves
  by_cases hPlans : ∃ scheduler plan, Plans pipeline scheduler plan
  · obtain ⟨scheduler, plan, hPlans⟩ := hPlans
    obtain ⟨g, hPlanned⟩ := hPlans.exists_planned
    obtain ⟨hPool, hRecords⟩ := records_run hPlanned hRun
    refine ⟨fun m hMismatch => ?_, fun job => ⟨fun hGet => ?_, ?_⟩⟩
    · obtain ⟨worker, rfl, -⟩ := Execution.mismatch_iff.mp hMismatch
      exact hRecords.notMem_of_collect hMove
    · rcases hRecords.new_entry (hRecords.moves hPlanned hPool hMove) hMove hGet with hOld | ⟨hSkipped, -⟩ |
        ⟨worker, rfl, hWorker, -, hYields⟩
      · exact .inl hOld
      · cases congrArg JobEntry.status hSkipped
      · obtain ⟨m, hJob, hMismatch⟩ := hYields.mismatch job rfl
        exact .inr ⟨m, Option.bind_eq_some_iff.mpr ⟨worker, hWorker, hMismatch⟩, hJob⟩
    · rintro (hOld | ⟨m, hMismatch, rfl⟩)
      · exact hRecords.kept hPlanned.levels hPool hMove hOld
      · exact hMove.mismatch_entry hMismatch
  · obtain ⟨hPoolless, hJobs⟩ := run_poolless hPlans hRun
    have hNone : u.mismatch e = none := by
      cases e with
      | collect job =>
        rw [Execution.mismatch, hPoolless.1]
        rfl
      | _ => rfl
    rw [hPoolless.same_jobs hMove, hNone]
    exact ⟨fun m hSome => absurd hSome (by simp), fun job => by simp⟩

theorem Moves.flag (h : Moves host registry pipeline u e v) (hFlag : v.main.integrityFailed = true) :
    u.main.integrityFailed = true ∨ ∃ m, u.mismatch e = some m := by
  cases h with
  | unresolved v hMain hNot hStops => cases hStops <;> cases hFlag
  | unplanned v hMain hNot hStops => cases hStops <;> cases hFlag
  | skippedLevel scheduler level rest hMain => exact .inl (by rw [hMain]; rfl)
  | worked job worker worker' action hWorker hPool hWorks => exact .inl hFlag
  | collectedResult scheduler rest integrityFailed job result published hMain hFresh hWorker =>
    exact .inl (by rw [hMain]; exact collectResult_flag hFlag)
  | collectedIntegrityError scheduler rest integrityFailed job name version expected actual hMain hFresh
      hWorker =>
    exact .inr ⟨⟨job, name, version, expected, actual⟩, Option.bind_eq_some_iff.mpr ⟨_, hWorker, rfl⟩⟩
  | closedPool scheduler rest integrityFailed hMain hAll => exact .inl (by rw [hMain]; exact hFlag)
  | _ => cases hFlag

theorem Orderly.step (h : Orderly u) (hRun : Run (Execution.Step host registry pipeline) .initial events u)
    (hStep : Execution.Step host registry pipeline u e v) : Orderly v where
  pool := hStep.moves.poolInv Plans.nodup h.pool
  over_iff := hStep.moves.over_iff h.over_iff
  completedAt hOpen := (hStep.moves.same_completedAt hOpen).trans (h.completedAt (hStep.moves.not_ended h.pool))
  flag hFlag := by
    rcases hStep.moves.flag hFlag with hOld | ⟨m, hMismatch⟩
    · obtain ⟨job, hGet⟩ := h.flag hOld
      exact ⟨job, run_kept hRun hStep hGet⟩
    · exact ⟨m.job, hStep.moves.mismatch_entry hMismatch⟩

theorem orderly_run (hRun : Run (Execution.Step host registry pipeline) .initial events u) : Orderly u := by
  apply hRun.invariant_reachable fun before u e v hBefore h hStep => h.step hBefore hStep
  exact ⟨poolInv_initial, iff_of_false Bool.noConfusion Bool.noConfusion, fun _ => rfl, fun h => by cases h⟩

/-- What a step adds to the alerts: a mismatch, if it has caught one, and the end, if it has come to it. -/
theorem Orderly.alert (hOrderly : Orderly u) (hOver : v.Over ↔ v.main.isEnded = true)
    (h : Moves host registry pipeline u e v) : u.run.closing = none ∧
      (u.alert v e).toList = ((u.mismatch e).map Mismatch.alert).toList ++ v.run.closing.toList := by
  have hOpen := h.not_ended hOrderly.pool
  have hLive : ∀ {w : Execution}, (w.Over ↔ w.main.isEnded = true) → w.main.isEnded = false →
      w.run.status.isLive = true := by
    intro w hOver hOpen
    rw [Execution.Over, hOpen] at hOver
    simpa using hOver
  refine ⟨RunState.closing_of_isLive (hLive hOrderly.over_iff hOpen), ?_⟩
  cases hEnded : v.main.isEnded with
  | false =>
    have hStatus := hLive hOver hEnded
    rw [Execution.alert_of_isLive hStatus, RunState.closing_of_isLive hStatus, Option.toList_none, List.append_nil]
  | true =>
    obtain ⟨hNone, hAlert⟩ := (h.ending hOpen hEnded).alert (hOrderly.completedAt hOpen)
    rw [hNone, hAlert]
    rfl

/-! ## The job that is named -/

theorem failing_eq_some {jobs : Dict String JobEntry} {entry : JobEntry} (hGet : jobs.get? job = some entry)
    (hFails : entry.isFailing = true) : ∃ named entry, failing jobs = some named ∧ jobs.get? named = some entry ∧
      entry.isFailing = true := by
  have hSome : (jobs.entries.find? fun entry => entry.2.isFailing).isSome = true :=
    List.find?_isSome.mpr ⟨(job, entry), Dict.get?_eq_some_iff.mp hGet, hFails⟩
  obtain ⟨found, hFound⟩ := Option.isSome_iff_exists.mp hSome
  have hHere := List.find?_some hFound
  refine ⟨found.1, found.2, by rw [failing, hFound]; rfl, ?_, hHere⟩
  exact Dict.get?_eq_some_iff.mpr (List.mem_of_find?_eq_some hFound)

/-- The alert about the end agrees with the entries. -/
structure Concludes (run : RunState) : Prop where
  failed : ∀ named, run.closing = some (.pipelineFailed named) →
    ∃ job entry, named = some job ∧ run.jobs.get? job = some entry ∧ entry.isFailing = true
  succeeded : run.closing = some .pipelineSucceeded →
    ∀ job entry, run.jobs.get? job = some entry → entry.isFailing = false

theorem concludes_of_none {run : RunState} (h : run.closing = none) : Concludes run where
  failed named hClosing := by cases h.symm.trans hClosing
  succeeded hClosing := by cases h.symm.trans hClosing

theorem concludes_of_resolutionFailure {run : RunState} {error : Option String}
    (h : run.closing = error.map .resolutionFailure) : Concludes run where
  failed named hClosing := by cases error <;> cases h.symm.trans hClosing
  succeeded hClosing := by cases error <;> cases h.symm.trans hClosing

theorem Orderly.concludes_finish (h : Orderly u) {scheduler : DAGScheduler} {integrityFailed : Bool}
    (hMain : u.main = .levels scheduler [] integrityFailed) (now : String) :
    Concludes (u.finish integrityFailed now).run := by
  have hNamed : (∃ job entry, u.run.jobs.get? job = some entry ∧ entry.isFailing = true) →
      ∃ job entry, failing u.run.jobs = some job ∧ u.run.jobs.get? job = some entry ∧ entry.isFailing = true :=
    fun ⟨job, entry, hGet, hFails⟩ => failing_eq_some hGet hFails
  generalize hStatuses : u.run.jobs.values.map JobEntry.status = statuses
  have hStatus : (u.finish integrityFailed now).run.status = finalStatus integrityFailed statuses := by
    rw [← hStatuses]
    rfl
  rcases finalStatus_terminal integrityFailed statuses with hFinal | hFinal | hFinal
  · have hClosing : (u.finish integrityFailed now).run.closing = some .pipelineSucceeded := by
      simp only [RunState.closing, hStatus, hFinal]
    refine ⟨fun named hFailed => ?_, fun _ job entry hGet => ?_⟩
    · cases hClosing.symm.trans hFailed
    obtain ⟨hIntegrity, hFailed⟩ := finalStatus_eq_succeeded.mp hFinal
    rw [← hStatuses] at hIntegrity hFailed
    simp only [JobEntry.isFailing, Bool.or_eq_false_iff, decide_eq_false_iff_not]
    exact ⟨fun hHere => hFailed (mem_statuses_iff.mpr ⟨job, entry, hGet, hHere⟩),
      fun hHere => hIntegrity (.inr (mem_statuses_iff.mpr ⟨job, entry, hGet, hHere⟩))⟩
  · have hClosing : (u.finish integrityFailed now).run.closing = some (.pipelineFailed (failing u.run.jobs)) := by
      simp only [RunState.closing, hStatus, hFinal]
      rfl
    have hFailed := (finalStatus_eq_failed.mp hFinal).2
    rw [← hStatuses] at hFailed
    obtain ⟨job, entry, hGet, hHere⟩ := mem_statuses_iff.mp hFailed
    refine ⟨fun named hSame => ?_, fun hSucceeded => by cases hClosing.symm.trans hSucceeded⟩
    cases hClosing.symm.trans hSame
    exact hNamed ⟨job, entry, hGet, by simp [JobEntry.isFailing, hHere]⟩
  · have hClosing : (u.finish integrityFailed now).run.closing = some (.pipelineFailed (failing u.run.jobs)) := by
      simp only [RunState.closing, hStatus, hFinal]
      rfl
    refine ⟨fun named hSame => ?_, fun hSucceeded => by cases hClosing.symm.trans hSucceeded⟩
    cases hClosing.symm.trans hSame
    apply hNamed
    rcases finalStatus_eq_integrityFailure.mp hFinal with hFlag | hEntry
    · obtain ⟨job, hGet⟩ := h.flag (by rw [hMain]; exact hFlag)
      exact ⟨job, integrityEntry, hGet, rfl⟩
    · rw [← hStatuses] at hEntry
      obtain ⟨job, entry, hGet, hHere⟩ := mem_statuses_iff.mp hEntry
      exact ⟨job, entry, hGet, by simp [JobEntry.isFailing, hHere]⟩

theorem Orderly.concludes (h : Orderly u) (hOver : v.Over ↔ v.main.isEnded = true)
    (hMove : Moves host registry pipeline u e v) : Concludes v.run := by
  have hOpen := hMove.not_ended h.pool
  cases hEnded : v.main.isEnded with
  | false =>
    rw [Execution.Over, hEnded] at hOver
    exact concludes_of_none (RunState.closing_of_isLive (by simpa using hOver))
  | true =>
    have hEnding := hMove.ending hOpen hEnded
    have hClosing := (hEnding.alert (h.completedAt hOpen)).2
    cases hEnding with
    | stopped event status error hEvent hStatus =>
      exact concludes_of_resolutionFailure (show _ = error.map _ by rcases hStatus with rfl | rfl <;> rfl)
    | aborted error => exact concludes_of_none hClosing.symm
    | finished scheduler integrityFailed now hMain => exact h.concludes_finish hMain now

/-! ## Runs -/

/-- The alerts of a run: the mismatches that its entries show, between its announcement and its end. -/
structure Announces (submitter : String) (mismatches : List Mismatch) (s : JournaledRun) : Prop where
  alerts : s.alerts =
    .pipelineStarted submitter :: mismatches.map Mismatch.alert ++ s.execution.run.closing.toList
  nodup : (mismatches.map Mismatch.job).Nodup
  entries : ∀ job, s.execution.run.jobs.get? job = some integrityEntry ↔ job ∈ mismatches.map Mismatch.job
  lines : ∀ m ∈ mismatches, m.line ∈ linesOf m.job s.written

variable {s t : JournaledRun} {mismatches : List Mismatch} {steps : List JournalStep} {ts : String}

theorem Announces.of_same (h : Announces submitter mismatches s) (hSame : t.execution = s.execution)
    (hWritten : ∃ more, t.written = s.written ++ more) (hAlerts : t.alerts = s.alerts) :
    Announces submitter mismatches t where
  alerts := by rw [hAlerts, hSame, h.alerts]
  nodup := h.nodup
  entries := by rw [hSame]; exact h.entries
  lines m hMem := by
    obtain ⟨more, hWritten⟩ := hWritten
    rw [hWritten, linesOf_append]
    exact List.mem_append_left _ (h.lines m hMem)

theorem mem_linesOf_spoken {m : Mismatch} (hMismatch : u.mismatch e = some m) :
    m.line ∈ linesOf m.job (asEvents ts (u.spoken e)) := by
  obtain ⟨worker, rfl, hWorker, hRaised⟩ := Execution.mismatch_iff.mp hMismatch
  rw [Execution.spoken, hWorker, asEvents_own, Option.bind_some, catchLine_eq m.job, hRaised]
  exact List.mem_singleton_self _

theorem Announces.executed (h : Announces submitter mismatches s)
    (hRun : Run (Execution.Step host registry pipeline) .initial events s.execution)
    (hStep : Execution.Step host registry pipeline s.execution e t.execution)
    (hWritten : t.written = s.written ++ asEvents ts (s.execution.spoken e))
    (hAlerts : t.alerts = s.alerts ++ (s.execution.alert t.execution e).toList) :
    Announces submitter (mismatches ++ (s.execution.mismatch e).toList) t := by
  have hOrderly := orderly_run hRun
  obtain ⟨hNone, hSends⟩ := hOrderly.alert (hStep.moves.over_iff hOrderly.over_iff) hStep.moves
  obtain ⟨hFresh, hEntries⟩ := run_mismatch hRun hStep
  refine ⟨?_, ?_, fun job => ?_, fun m hMem => ?_⟩
  · rw [hAlerts, hSends, h.alerts, hNone]
    cases s.execution.mismatch e <;> simp
  · cases hMismatch : s.execution.mismatch e with
    | none => simpa using h.nodup
    | some m =>
      rw [Option.toList_some, List.map_append, List.map_singleton, List.nodup_append]
      refine ⟨h.nodup, List.nodup_singleton _, fun job hJob other hOther hSame => ?_⟩
      rw [List.mem_singleton.mp hOther] at hSame
      cases hSame
      exact hFresh m hMismatch (Dict.mem_keys_of_get? ((h.entries m.job).mpr hJob))
  · rw [hEntries, h.entries, List.map_append, List.mem_append]
    cases s.execution.mismatch e <;> simp [eq_comm]
  · rw [hWritten, linesOf_append]
    rcases List.mem_append.mp hMem with hOld | hNew
    · exact List.mem_append_left _ (h.lines m hOld)
    · exact List.mem_append_right _ (mem_linesOf_spoken (Option.mem_toList.mp hNew))

theorem JournalMoves.announces {step : JournalStep} (h : Announces submitter mismatches s)
    (hRun : Run (Execution.Step host registry pipeline) .initial events s.execution)
    (hMove : JournalMoves host registry pipeline s step t) : ∃ mismatches, Announces submitter mismatches t := by
  cases hMove with
  | executed ts event t hFree hStep hWritten hDue hAlerts => exact ⟨_, h.executed hRun hStep hWritten hAlerts⟩
  | wrote ts job line worker t hLine hWorker hActive hSame hWritten hDue hAlerts =>
    exact ⟨mismatches, h.of_same hSame ⟨_, hWritten⟩ hAlerts⟩
  | printed ts job line t hWorker hSame hWritten hDue hAlerts =>
    exact ⟨mismatches, h.of_same hSame ⟨_, hWritten⟩ hAlerts⟩
  | streamed step t hSame hWritten hDue hAlerts =>
    exact ⟨mismatches, h.of_same hSame ⟨[], hWritten.trans (List.append_nil _).symm⟩ hAlerts⟩

theorem announces_submitted (submitter : String) : Announces submitter [] (.submitted submitter) where
  alerts := rfl
  nodup := List.nodup_nil
  entries _ := iff_of_false nofun List.not_mem_nil
  lines _ hMem := absurd hMem List.not_mem_nil

theorem run_concludes (hRun : Run (Execution.Step host registry pipeline) .initial events u) : Concludes u.run := by
  have hKeeps := hRun.invariant_reachable fun before u e v hBefore (_ : Concludes u.run) hStep =>
    (orderly_run hBefore).concludes (hStep.moves.over_iff (orderly_run hBefore).over_iff) hStep.moves
  exact hKeeps (concludes_of_none rfl)

/-- In every state the alerts sent so far are the announcement, one for each job whose entry says that a download did
not match, whose log says the same, and at the end the one that goes with it. That one names a job that has failed
if there is one, and a run that is said to have succeeded has none. -/
theorem alerts_agree (hRun : Run (JournaledRun.Step floats host registry pipeline) (.submitted submitter) steps s) :
    (∃ mismatches : List Mismatch, Announces submitter mismatches s) ∧ Concludes s.execution.run := by
  obtain ⟨events, hExecution⟩ := journal_execution_run hRun
  have hKeeps := hRun.invariant_reachable fun before s step t hBefore
      (h : ∃ mismatches, Announces submitter mismatches s) hStep => by
    obtain ⟨mismatches, hAnnounces⟩ := h
    obtain ⟨events, hExecution⟩ := journal_execution_run hBefore
    exact hStep.moves.1.announces hAnnounces hExecution
  exact ⟨hKeeps ⟨[], announces_submitted submitter⟩, run_concludes hExecution⟩

theorem alerts_agree_corrupted : ∃ s : JournaledRun,
    Run (JournaledRun.Step zeroFloats exampleHost httpRegistry corruptedPipeline) (.submitted "dev") corruptedSteps s ∧
    s.alerts.getLast? = some (.pipelineFailed (some "build")) ∧ s.alerts.length = 3 ∧
    (∃ mismatches : List Mismatch, Announces "dev" mismatches s) ∧ Concludes s.execution.run := by
  have hSome : ((execute (JournaledRun.next zeroFloats exampleHost httpRegistry corruptedPipeline)
      (.submitted "dev") corruptedSteps).any fun s =>
        s.alerts.getLast? = some (.pipelineFailed (some "build")) ∧ s.alerts.length = 3) = true := by decide +kernel
  obtain ⟨s, hExecute, hEnd⟩ := (Option.any_eq_true _ _).mp hSome
  obtain ⟨hLast, hLength⟩ := of_decide_eq_true hEnd
  have hRun := run_stepsOf_iff.mpr hExecute
  exact ⟨s, hRun, hLast, hLength, alerts_agree hRun⟩

end Forge.Engine
