import Forge.Engine.EntryHistory
import Forge.Engine.Journal

/-! # The log of a job

What the entry of a job tells, its log tells as well: which packages it pulled, what it published, and where its
download did not match. The threads of a level write between each other, so this is about the lines of one job.
-/
namespace Forge.Engine
open Forge.Python Forge.Registry Forge.Theory
set_option autoImplicit false

variable {host : Host} {registry : RegistryClient} {pipeline : PipelineConfig} {lockfile : Option Lockfile}
  {job other ts line : String} {lines : List String} {due : Option String} {collected : List String}

/-! ## Lines of a job -/

def linesOf (job : String) (written : List LogEvent) : List String :=
  (written.filter fun event => event.job = job).map LogEvent.line

@[simp] theorem linesOf_append (job : String) (written more : List LogEvent) :
    linesOf job (written ++ more) = linesOf job written ++ linesOf job more := by
  simp [linesOf]

@[simp] theorem linesOf_own : linesOf job [⟨ts, job, line⟩] = [line] := by simp [linesOf]

theorem linesOf_other (h : other ≠ job) : linesOf job [⟨ts, other, line⟩] = [] := by simp [linesOf, h]

def header (lockfile : Option Lockfile) (job : String) : List String :=
  startLine job :: (depsOf lockfile).map pulledLine

def publishedLines (published : List PublishedArtifact) : List String :=
  published.map fun pub => publishedLine pub.name pub.version

/-- The log of a job that goes with its entry. `output` is what its container has printed. -/
inductive Transcript (lockfile : Option Lockfile) (job : String) : JobEntry → List String → Prop where
  | executed (result : JobResult) (published : List PublishedArtifact) (output : List String) :
      Transcript lockfile job (resultEntry result published)
        (header lockfile job ++ output ++ publishedLines published)
  | corrupted (pulled : List DepPull) (dep : DepPull) (rest : List DepPull) (actual : String)
      (hDeps : depsOf lockfile = pulled ++ dep :: rest) (hActual : actual ≠ dep.2.sha256) :
      Transcript lockfile job integrityEntry (startLine job :: pulled.map pulledLine ++
        [mismatchLine dep.1 dep.2.version dep.2.sha256 actual,
          integrityLine dep.1 dep.2.version dep.2.sha256 actual])
  | skipped : Transcript lockfile job skippedEntry []

/-! ## Workers -/

/-- The lines of a job, and the one that is due, while its worker is in the pool. -/
def Worker.Told (lockfile : Option Lockfile) (job : String) (collected : List String) (due : Option String)
    (lines : List String) : Worker → Prop
  | .queued => lines = [] ∧ due = none
  | .pulling rest => ∃ pulled, depsOf lockfile = pulled ++ rest ∧
      lines ++ due.toList = startLine job :: pulled.map pulledLine
  | .running => due = none ∧ ∃ output, lines = header lockfile job ++ output
  | .walking _ published => ∃ output, lines ++ due.toList = header lockfile job ++ output ++ publishedLines published
  | .posting _ _ _ published => due = none ∧
      ∃ output, lines = header lockfile job ++ output ++ publishedLines published
  | .answered _ _ _ _ _ published => due = none ∧
      ∃ output, lines = header lockfile job ++ output ++ publishedLines published
  | .returned _ published => due = none ∧
      ∃ output, lines = header lockfile job ++ output ++ publishedLines published
  | .raised (.integrityError name version expected actual) => due = none ∧ ∃ pulled dep rest,
      depsOf lockfile = pulled ++ dep :: rest ∧ (name, version, expected) = (dep.1, dep.2.version, dep.2.sha256) ∧
      actual ≠ expected ∧
      lines = startLine job :: pulled.map pulledLine ++ [mismatchLine name version expected actual] ++
        if job ∈ collected then [integrityLine name version expected actual] else []
  | .raised (.exception _) => due = none

theorem Works.told {worker worker' : Worker} {action : Action}
    (h : Works host pipeline lockfile job worker action worker') (hTold : worker.Told lockfile job collected due lines)
    (hFree : (∀ message, action ≠ .raise message) → due = none) (hFresh : job ∉ collected) :
    worker'.Told lockfile job collected (dueLine job worker action) (lines ++ (raiseLine worker action).toList) := by
  cases h with
  | started =>
    obtain ⟨rfl, -⟩ := hTold
    exact ⟨[], rfl, rfl⟩
  | pulled dep rest content hSha =>
    obtain ⟨pulled, hDeps, hLines⟩ := hTold
    cases hFree (by simp)
    have hPull : pullDep dep 200 content = .ok () := by simp [pullDep, hSha]
    refine ⟨pulled ++ [dep], by rw [hDeps, List.append_assoc]; rfl, ?_⟩
    simp only [Option.toList_none, List.append_nil] at hLines
    simp [dueLine, raiseLine, hPull, hLines]
  | mismatched dep rest content hSha =>
    obtain ⟨pulled, hDeps, hLines⟩ := hTold
    cases hFree (by simp)
    have hPull : pullDep dep 200 content =
        .error (.integrityError dep.1 dep.2.version dep.2.sha256 (sha256 content)) := by simp [pullDep, hSha]
    refine ⟨by simp [dueLine, hPull], pulled, dep, rest, hDeps, rfl, hSha, ?_⟩
    simp only [Option.toList_none, List.append_nil] at hLines
    rw [if_neg hFresh, List.append_nil, raiseLine, hPull, hLines]
    rfl
  | refused dep rest statusCode content message hStatus =>
    change dueLine job (.pulling (dep :: rest)) (.pull statusCode content) = none
    simp [dueLine, pullDep, hStatus]
  | launched hRun =>
    obtain ⟨pulled, hDeps, hLines⟩ := hTold
    cases hFree (by simp)
    rw [List.append_nil] at hDeps
    exact ⟨rfl, [], by simpa [header, hDeps, raiseLine] using hLines⟩
  | succeeded =>
    obtain ⟨rfl, output, hLines⟩ := hTold
    exact ⟨output, by simp [hLines, dueLine, raiseLine, publishedLines]⟩
  | failed exitCode hExit =>
    obtain ⟨rfl, output, hLines⟩ := hTold
    exact ⟨rfl, output, by simp [hLines, raiseLine, publishedLines]⟩
  | absent artifact rest published =>
    obtain ⟨output, hLines⟩ := hTold
    cases hFree (by simp)
    exact ⟨output, by simpa [dueLine, raiseLine] using hLines⟩
  | found artifact rest published data hHold =>
    obtain ⟨output, hLines⟩ := hTold
    cases hFree (by simp)
    exact ⟨rfl, output, by simpa [raiseLine] using hLines⟩
  | handled artifact data rest published statusCode text =>
    obtain ⟨rfl, output, hLines⟩ := hTold
    exact ⟨rfl, output, by simp [hLines, raiseLine]⟩
  | created artifact data statusCode text rest published hStatus =>
    obtain ⟨rfl, output, hLines⟩ := hTold
    exact ⟨output, by simp [hLines, dueLine, raiseLine, publishArtifact, hStatus, publishedLines]⟩
  | rejected artifact data statusCode text rest published message hStatus =>
    change dueLine job (.answered artifact data statusCode text rest published) .receive = none
    simp [dueLine, publishArtifact, hStatus]
  | finished published =>
    obtain ⟨output, hLines⟩ := hTold
    cases hFree (by simp)
    exact ⟨rfl, output, by simpa [raiseLine] using hLines⟩
  | raised worker message hActive =>
    change dueLine job worker (.raise message) = none
    cases worker <;> simp [dueLine]

/-- The log of a job changes with what its worker says only. -/
theorem Worker.Told.collect {worker : Worker} (h : worker.Told lockfile job collected due lines)
    (hFresh : job ∉ collected) :
    worker.Told lockfile job (job :: collected) due (lines ++ (catchLine worker).toList) := by
  cases worker with
  | raised exc =>
    cases exc with
    | integrityError name version expected actual =>
      obtain ⟨hDue, pulled, dep, rest, hDeps, hDep, hActual, hLines⟩ := h
      refine ⟨hDue, pulled, dep, rest, hDeps, hDep, hActual, ?_⟩
      rw [if_neg hFresh, List.append_nil] at hLines
      rw [if_pos List.mem_cons_self, hLines]
      rfl
    | exception message => exact h
  | _ => simpa [catchLine, Worker.Told] using h

theorem Worker.Told.congr {worker : Worker} {collected' : List String}
    (h : worker.Told lockfile job collected due lines) (hSame : job ∈ collected' ↔ job ∈ collected) :
    worker.Told lockfile job collected' due lines := by
  cases worker with
  | raised exc =>
    cases exc with
    | integrityError name version expected actual => simpa only [Worker.Told, hSame] using h
    | exception message => exact h
  | _ => exact h

theorem Worker.Told.transcript {worker : Worker} {entry : JobEntry}
    (h : worker.Told lockfile job collected due lines) (hYields : worker.Yields entry) (hFresh : job ∉ collected) :
    Transcript lockfile job entry (lines ++ (catchLine worker).toList) := by
  cases hYields with
  | result result published =>
    obtain ⟨-, output, rfl⟩ := h
    rw [show catchLine (.returned result published) = none from rfl, Option.toList_none, List.append_nil]
    exact .executed result published output
  | integrityError name version expected actual =>
    obtain ⟨-, pulled, dep, rest, hDeps, hDep, hActual, hLines⟩ := h
    rw [if_neg hFresh, List.append_nil] at hLines
    simp only [Prod.mk.injEq] at hDep
    obtain ⟨rfl, rfl, rfl⟩ := hDep
    rw [hLines]
    simpa [catchLine] using Transcript.corrupted pulled dep rest actual hDeps hActual

/-! ## The invariant -/

structure JournalInv (g : JobGraph) (plan : List (List String)) (events : List Event) (s : JournaledRun) : Prop where
  pool : PoolInv s.execution
  records : RecordsInv g plan events s.execution
  quiet : Quiet s.execution
  told : ∀ job worker, s.execution.futures.get? job = some worker →
    worker.Told s.execution.run.lockfile job s.execution.collected (s.due job) (linesOf job s.written)
  touched : ∀ job worker, s.execution.futures.get? job = some worker → Untouched events job → worker = .queued
  silent : ∀ job, Untouched events job → linesOf job s.written = [] ∧ s.due job = none
  entries : ∀ job entry, s.execution.run.jobs.get? job = some entry →
    Transcript s.execution.run.lockfile job entry (linesOf job s.written)

variable {g : JobGraph} {plan : List (List String)} {events : List Event} {s t : JournaledRun} {e : Event}

theorem journalInv_submitted (submitter : String) : JournalInv g plan [] (.submitted submitter) where
  pool := poolInv_initial
  records := recordsInv_initial
  quiet := quiet_of_idle fun job worker hGet => by cases hGet
  told job worker hGet := by cases hGet
  touched job worker hGet := by cases hGet
  silent job hUntouched := ⟨rfl, rfl⟩
  entries job entry hGet := by cases hGet

/-- A line of a job whose worker is at work. -/
theorem JournalInv.prints (h : JournalInv g plan events s) (hSame : t.execution = s.execution)
    (hWritten : t.written = s.written ++ [⟨ts, job, line⟩]) (hDue : ∀ other, other ≠ job → t.due other = s.due other)
    {worker : Worker} (hWorker : s.execution.futures.get? job = some worker) (hBusy : worker.isDone = false)
    (hTouched : ¬ Untouched events job) (hTold : worker.Told s.execution.run.lockfile job s.execution.collected
      (t.due job) (linesOf job s.written ++ [line])) : JournalInv g plan events t := by
  have hOwn : linesOf job t.written = linesOf job s.written ++ [line] := by
    rw [hWritten, linesOf_append, linesOf_own]
  have hOther : ∀ other, other ≠ job → linesOf other t.written = linesOf other s.written := by
    intro other hNe
    rw [hWritten, linesOf_append, linesOf_other hNe.symm, List.append_nil]
  constructor
  · rw [hSame]
    exact h.pool
  · rw [hSame]
    exact h.records
  · rw [hSame]
    exact h.quiet
  · intro k w hGet
    rw [hSame] at hGet ⊢
    rcases eq_or_ne k job with rfl | hNe
    · cases hWorker.symm.trans hGet
      rw [hOwn]
      exact hTold
    · rw [hOther k hNe, hDue k hNe]
      exact h.told k w hGet
  · intro k w hGet
    rw [hSame] at hGet
    exact h.touched k w hGet
  · intro k hUntouched
    rcases eq_or_ne k job with rfl | hNe
    · exact absurd hUntouched hTouched
    · rw [hOther k hNe, hDue k hNe]
      exact h.silent k hUntouched
  · intro k entry hGet
    rw [hSame] at hGet ⊢
    rcases eq_or_ne k job with rfl | hNe
    · rw [h.quiet.recorded k (Dict.mem_keys_of_get? hGet) worker hWorker] at hBusy
      cases hBusy
    · rw [hOther k hNe]
      exact h.entries k entry hGet

/-- A worker that has a line to write is in one of the states that a line leads to. -/
theorem Worker.Told.write {worker : Worker} (h : worker.Told lockfile job collected (some line) lines) :
    worker.Told lockfile job collected none (lines ++ [line]) := by
  cases worker with
  | queued => cases h.2
  | pulling rest => simpa [Worker.Told] using h
  | running => cases h.1
  | walking artifacts published => simpa [Worker.Told] using h
  | posting artifact data artifacts published => cases h.1
  | answered artifact data statusCode text artifacts published => cases h.1
  | returned result published => cases h.1
  | raised exc =>
    cases exc with
    | integrityError name version expected actual => cases h.1
    | exception message => cases h

theorem JournalInv.wrote {worker : Worker} (h : JournalInv g plan events s) (hLine : s.due job = some line)
    (hWorker : s.execution.futures.get? job = some worker) (hActive : worker.isActive = true)
    (hSame : t.execution = s.execution) (hWritten : t.written = s.written ++ [⟨ts, job, line⟩])
    (hDue : t.due = Function.update s.due job none) : JournalInv g plan events t := by
  have hBusy : worker.isDone = false := by
    simp only [Worker.isActive, Bool.and_eq_true, Bool.not_eq_true'] at hActive
    exact hActive.2
  refine h.prints hSame hWritten (fun other hNe => ?_) hWorker hBusy (fun hUntouched => ?_) ?_
  · rw [hDue, Function.update_of_ne hNe]
  · rw [(h.silent job hUntouched).2] at hLine
    cases hLine
  · have hTold := h.told job worker hWorker
    rw [hLine] at hTold
    rw [hDue, Function.update_self]
    exact hTold.write

theorem JournalInv.printed (h : JournalInv g plan events s)
    (hWorker : s.execution.futures.get? job = some .running) (hSame : t.execution = s.execution)
    (hWritten : t.written = s.written ++ [⟨ts, job, line⟩]) (hDue : t.due = s.due) : JournalInv g plan events t := by
  refine h.prints hSame hWritten (fun other hNe => by rw [hDue]) hWorker rfl (fun hUntouched => ?_) ?_
  · cases h.touched job _ hWorker hUntouched
  · obtain ⟨hNone, output, hLines⟩ := h.told job _ hWorker
    rw [hDue]
    exact ⟨hNone, output ++ [line], by rw [hLines, List.append_assoc]⟩

/-! ## Steps of workers -/

theorem asEvents_own (ts job : String) (said : Option String) :
    linesOf job (asEvents ts (said.map fun line => (job, line))) = said.toList := by
  cases said with
  | none => rfl
  | some line => exact linesOf_own

theorem asEvents_other (ts : String) (said : Option String) (h : other ≠ job) :
    linesOf job (asEvents ts (said.map fun line => (other, line))) = [] := by
  cases said with
  | none => rfl
  | some line => exact linesOf_other h

theorem free_of_holds {action : Action} (hFree : s.holds (.work job action) = false)
    (hAction : ∀ message, action ≠ .raise message) : s.due job = none := by
  cases action with
  | raise message => exact absurd rfl (hAction message)
  | _ => simpa [JournaledRun.holds] using hFree

theorem JournalInv.worked (h : JournalInv g plan events s) {worker worker' : Worker} {action : Action}
    (hPlanned : ∃ scheduler, Planned g pipeline scheduler plan) (hFree : s.holds (.work job action) = false)
    (hWorker : s.execution.futures.get? job = some worker)
    (hWorks : Works host pipeline s.execution.run.lockfile job worker action worker')
    (hMove : Moves host registry pipeline s.execution (.work job action) t.execution)
    (hExecution : t.execution = s.execution.worked job worker action worker')
    (hWritten : t.written = s.written ++ asEvents ts (s.execution.spoken (.work job action)))
    (hDue : t.due = s.dueAfter (.work job action)) : JournalInv g plan (events ++ [.work job action]) t := by
  obtain ⟨scheduler, hPlanned⟩ := hPlanned
  have hBusy := hWorks.not_done
  have hFresh : job ∉ s.execution.collected := by
    intro hCollected
    rw [h.quiet.collected job hCollected worker hWorker] at hBusy
    cases hBusy
  have hSpoken : s.execution.spoken (.work job action) = (raiseLine worker action).map fun line => (job, line) := by
    rw [Execution.spoken, hWorker]
    rfl
  rw [hSpoken] at hWritten
  have hOwn : linesOf job t.written = linesOf job s.written ++ (raiseLine worker action).toList := by
    rw [hWritten, linesOf_append, asEvents_own]
  have hOther : ∀ other, other ≠ job → linesOf other t.written = linesOf other s.written := by
    intro other hNe
    rw [hWritten, linesOf_append, asEvents_other ts _ hNe.symm, List.append_nil]
  have hDueOwn : t.due job = dueLine job worker action := by
    rw [hDue, JournaledRun.dueAfter, Function.update_self, hWorker]
    rfl
  have hDueOther : ∀ other, other ≠ job → t.due other = s.due other := by
    intro other hNe
    rw [hDue, JournaledRun.dueAfter, Function.update_of_ne hNe]
  have hTouched : ¬ Untouched (events ++ [.work job action]) job := fun hUntouched =>
    hUntouched action (List.mem_append_right events List.mem_cons_self)
  constructor
  · exact hMove.poolInv Plans.nodup h.pool
  · exact h.records.moves hPlanned h.pool hMove
  · rw [hExecution]
    exact h.quiet.worked hWorker hBusy
  · intro k w hGet
    rw [hExecution, Execution.worked, Dict.get?_set] at hGet
    rw [hExecution]
    split at hGet
    · rename_i hSame
      subst hSame
      cases hGet
      rw [hOwn, hDueOwn]
      exact hWorks.told (h.told k worker hWorker) (free_of_holds hFree) hFresh
    · rename_i hNe
      rw [hOther k hNe, hDueOther k hNe]
      exact h.told k w hGet
  · intro k w hGet hUntouched
    rw [hExecution, Execution.worked, Dict.get?_set] at hGet
    split at hGet
    · rename_i hSame
      subst hSame
      exact absurd hUntouched hTouched
    · exact h.touched k w hGet hUntouched.of_append
  · intro k hUntouched
    rcases eq_or_ne k job with rfl | hNe
    · exact absurd hUntouched hTouched
    · rw [hOther k hNe, hDueOther k hNe]
      exact h.silent k hUntouched.of_append
  · intro k entry hGet
    rw [hExecution] at hGet ⊢
    rcases eq_or_ne k job with rfl | hNe
    · rw [h.quiet.recorded k (Dict.mem_keys_of_get? hGet) worker hWorker] at hBusy
      cases hBusy
    · rw [hOther k hNe]
      exact h.entries k entry hGet

/-! ## Steps of the main thread -/

section
variable {u v : Execution}

theorem Moves.collects (h : Moves host registry pipeline u e v) :
    ((∀ job, e ≠ .collect job) ∧ (v.collected = u.collected ∨ v.futures = .empty)) ∨
      ∃ job, e = .collect job ∧ job ∉ u.collected ∧ v.collected = job :: u.collected := by
  cases h with
  | unresolved t hMain hNot hStops => exact .inl ⟨by simp, .inl (by cases hStops <;> rfl)⟩
  | unplanned t hMain hNot hStops => exact .inl ⟨by simp, .inl (by cases hStops <;> rfl)⟩
  | openedPool scheduler level rest hMain hLimit => exact .inl ⟨by simp, .inr rfl⟩
  | collectedResult scheduler rest integrityFailed job result published hMain hFresh hWorker =>
    have hCollects := collectResult_collects (s := { u with collected := job :: u.collected }) scheduler rest
      integrityFailed job result published
    exact .inr ⟨job, rfl, hFresh, hCollects.collected⟩
  | collectedIntegrityError scheduler rest integrityFailed job name version expected actual hMain hFresh
      hWorker =>
    have hCollects := collectIntegrityError_collects (s := { u with collected := job :: u.collected }) scheduler
      rest job
    exact .inr ⟨job, rfl, hFresh, hCollects.collected⟩
  | collectedException scheduler rest integrityFailed job message hMain hFresh hWorker =>
    exact .inr ⟨job, rfl, hFresh, rfl⟩
  | _ => exact .inl ⟨by simp, .inl rfl⟩

/-- The main thread adds calls that are queued, and leaves the others as they are. -/
theorem Moves.main_futures (h : Moves host registry pipeline u e v) (hOther : ∀ j action, e ≠ .work j action)
    {worker : Worker} (hGet : v.futures.get? job = some worker) :
    worker = .queued ∨ u.futures.get? job = some worker := by
  have hKeeps := h.workers (P := fun job worker => worker = .queued ∨ u.futures.get? job = some worker)
    (fun job worker hOld => .inr hOld) (fun job hJob => .inl rfl)
    (fun j w action w' hWorker hEvent => absurd hEvent (hOther j action))
  exact hKeeps job worker hGet

theorem RecordsInv.notMem_of_collect (h : RecordsInv g plan events u)
    (hMove : Moves host registry pipeline u (.collect job) v) : job ∉ u.run.jobs.keys := by
  cases hMove with
  | collectedResult scheduler rest integrityFailed _ result published hMain hFresh hWorker =>
    exact h.notMem_of_fresh hMain hFresh (Dict.mem_keys_of_get? hWorker)
  | collectedIntegrityError scheduler rest integrityFailed _ name version expected actual hMain hFresh hWorker =>
    exact h.notMem_of_fresh hMain hFresh (Dict.mem_keys_of_get? hWorker)
  | collectedException scheduler rest integrityFailed _ message hMain hFresh hWorker =>
    exact h.notMem_of_fresh hMain hFresh (Dict.mem_keys_of_get? hWorker)

/-- The lockfile is there before the first job is. -/
theorem RecordsInv.same_lockfile (h : RecordsInv g plan events u) (hMove : Moves host registry pipeline u e v)
    (hSome : u.futures ≠ .empty ∨ u.run.jobs ≠ .empty) : v.run.lockfile = u.run.lockfile := by
  rcases hMove.lockfile with hSame | ⟨hMain, -⟩
  · exact hSame
  · have hPhase := h.phase
    rw [RecordsPhase, hMain] at hPhase
    rcases hSome with hFutures | hJobs
    · exact absurd hPhase.1 hFutures
    · exact absurd hPhase.2.1 hJobs

end

theorem says_collect (job : String) (written : List LogEvent) (u : Execution) :
    linesOf job (written ++ asEvents ts (u.spoken (.collect job))) =
      linesOf job written ++ ((u.futures.get? job).bind catchLine).toList := by
  rw [linesOf_append, Execution.spoken, asEvents_own]

theorem says_main {u : Execution} (written : List LogEvent) (hOther : ∀ j action, e ≠ .work j action)
    (hCollect : e ≠ .collect job) : linesOf job (written ++ asEvents ts (u.spoken e)) = linesOf job written := by
  rw [linesOf_append]
  cases e with
  | work j action => exact absurd rfl (hOther j action)
  | collect j =>
    rw [Execution.spoken, asEvents_other ts _ (fun hSame => hCollect (by rw [hSame])), List.append_nil]
  | _ => exact List.append_nil _

theorem JournalInv.main_silent (h : JournalInv g plan events s) (hOther : ∀ j action, e ≠ .work j action)
    (hWritten : t.written = s.written ++ asEvents ts (s.execution.spoken e)) (hUntouched : Untouched events job) :
    linesOf job t.written = [] := by
  have hSilent := (h.silent job hUntouched).1
  rcases eq_or_ne e (.collect job) with rfl | hCollect
  · rw [hWritten, says_collect, hSilent]
    cases hGet : s.execution.futures.get? job with
    | none => rfl
    | some worker =>
      cases h.touched job worker hGet hUntouched
      rfl
  · rw [hWritten, says_main s.written hOther hCollect, hSilent]

theorem JournalInv.main_told (h : JournalInv g plan events s)
    (hRecords : RecordsInv g plan (events ++ [e]) t.execution)
    (hMove : Moves host registry pipeline s.execution e t.execution) (hOther : ∀ j action, e ≠ .work j action)
    (hWritten : t.written = s.written ++ asEvents ts (s.execution.spoken e)) (hDue : t.due = s.due)
    {worker : Worker} (hWorker : t.execution.futures.get? job = some worker) :
    worker.Told t.execution.run.lockfile job t.execution.collected (t.due job) (linesOf job t.written) := by
  rcases hMove.main_futures hOther hWorker with rfl | hOld
  · have hUntouched : Untouched (events ++ [e]) job := hRecords.fits job _ hWorker
    refine ⟨h.main_silent hOther hWritten hUntouched.of_append, ?_⟩
    rw [hDue, (h.silent job hUntouched.of_append).2]
  · have hFutures : s.execution.futures ≠ .empty := by
      intro hEmpty
      rw [hEmpty] at hOld
      cases hOld
    have hTold := h.told job worker hOld
    rw [h.records.same_lockfile hMove (.inl hFutures), hDue]
    rcases hMove.collects with ⟨hNot, hSame⟩ | ⟨collected, rfl, hFresh, hCollected⟩
    · rw [hWritten, says_main s.written hOther (hNot job)]
      rcases hSame with hSame | hEmpty
      · rw [hSame]
        exact hTold
      · rw [hEmpty] at hWorker
        cases hWorker
    · rw [hCollected]
      rcases eq_or_ne collected job with rfl | hNe
      · rw [hWritten, says_collect, hOld]
        exact hTold.collect hFresh
      · have hCollect : Event.collect collected ≠ .collect job := fun hSame => hNe (Event.collect.inj hSame)
        rw [hWritten, says_main s.written hOther hCollect]
        exact hTold.congr (by simp [hNe.symm])

theorem JournalInv.main_entry (h : JournalInv g plan events s)
    (hRecords : RecordsInv g plan (events ++ [e]) t.execution)
    (hMove : Moves host registry pipeline s.execution e t.execution) (hOther : ∀ j action, e ≠ .work j action)
    (hWritten : t.written = s.written ++ asEvents ts (s.execution.spoken e)) {entry : JobEntry}
    (hEntry : t.execution.run.jobs.get? job = some entry) :
    Transcript t.execution.run.lockfile job entry (linesOf job t.written) := by
  rcases h.records.new_entry hRecords hMove hEntry with hOld | ⟨rfl, hUntouched⟩ |
    ⟨worker, rfl, hWorker, hFresh, hYields⟩
  · have hJobs : s.execution.run.jobs ≠ .empty := by
      intro hEmpty
      rw [hEmpty] at hOld
      cases hOld
    rw [h.records.same_lockfile hMove (.inr hJobs)]
    have hCollect : e ≠ .collect job := by
      rintro rfl
      exact h.records.notMem_of_collect hMove (Dict.mem_keys_of_get? hOld)
    rw [hWritten, says_main s.written hOther hCollect]
    exact h.entries job entry hOld
  · rw [h.main_silent hOther hWritten hUntouched]
    exact .skipped
  · have hFutures : s.execution.futures ≠ .empty := by
      intro hEmpty
      rw [hEmpty] at hWorker
      cases hWorker
    rw [h.records.same_lockfile hMove (.inl hFutures), hWritten, says_collect, hWorker]
    exact (h.told job worker hWorker).transcript hYields hFresh

theorem JournalInv.main (h : JournalInv g plan events s) (hPlanned : ∃ scheduler, Planned g pipeline scheduler plan)
    (hMove : Moves host registry pipeline s.execution e t.execution) (hOther : ∀ j action, e ≠ .work j action)
    (hWritten : t.written = s.written ++ asEvents ts (s.execution.spoken e)) (hDue : t.due = s.dueAfter e) :
    JournalInv g plan (events ++ [e]) t := by
  obtain ⟨scheduler, hPlanned⟩ := hPlanned
  have hPool := hMove.poolInv Plans.nodup h.pool
  have hRecords := h.records.moves hPlanned h.pool hMove
  have hSame : t.due = s.due := by
    rw [hDue]
    cases e with
    | work j action => exact absurd rfl (hOther j action)
    | _ => rfl
  refine ⟨hPool, hRecords, ?_, ?_, ?_, ?_, ?_⟩
  · cases hAborting : t.execution.main.isAborting with
    | false => exact hRecords.quiet hPool hAborting
    | true => exact h.records.quiet_aborting h.quiet hMove hAborting
  · exact fun job worker => h.main_told hRecords hMove hOther hWritten hSame
  · intro job worker hGet hUntouched
    rcases hMove.main_futures hOther hGet with hQueued | hOld
    · exact hQueued
    · exact h.touched job worker hOld hUntouched.of_append
  · intro job hUntouched
    rw [hSame]
    exact ⟨h.main_silent hOther hWritten hUntouched.of_append, (h.silent job hUntouched.of_append).2⟩
  · exact fun job entry => h.main_entry hRecords hMove hOther hWritten

/-! ## Runs -/

def JournalStep.event? : JournalStep → Option Event
  | .execute _ event => some event
  | _ => none

def engineEvents (steps : List JournalStep) : List Event := steps.filterMap JournalStep.event?

theorem JournalMoves.journalInv {steps : List JournalStep} {step : JournalStep}
    (hPlanned : ∃ scheduler, Planned g pipeline scheduler plan) (h : JournalInv g plan (engineEvents steps) s)
    (hMove : JournalMoves host registry pipeline s step t) : JournalInv g plan (engineEvents (steps ++ [step])) t := by
  rw [engineEvents, List.filterMap_append]
  cases hMove with
  | executed ts event t hFree hStep hWritten hDue hAlerts =>
    change JournalInv g plan (engineEvents steps ++ [event]) t
    have hMove := hStep.moves
    by_cases hWork : ∃ job action, event = .work job action
    · obtain ⟨job, action, rfl⟩ := hWork
      generalize hExecution : t.execution = u at hMove
      cases hMove with
      | worked job worker worker' action hWorker hPool hWorks =>
        exact h.worked hPlanned hFree hWorker hWorks hStep.moves hExecution hWritten hDue
    · exact h.main hPlanned hMove (fun job action hEvent => hWork ⟨job, action, hEvent⟩) hWritten hDue
  | wrote ts job line worker t hLine hWorker hActive hSame hWritten hDue hAlerts =>
    rw [show [JournalStep.write ts job].filterMap JournalStep.event? = [] from rfl, List.append_nil]
    exact h.wrote hLine hWorker hActive hSame hWritten hDue
  | printed ts job line t hWorker hSame hWritten hDue hAlerts =>
    rw [show [JournalStep.output ts job line].filterMap JournalStep.event? = [] from rfl, List.append_nil]
    exact h.printed hWorker hSame hWritten hDue
  | streamed step t hSame hWritten hDue hAlerts =>
    rw [show [JournalStep.stream step].filterMap JournalStep.event? = [] from rfl, List.append_nil]
    refine ⟨?_, ?_, ?_, ?_, ?_, ?_, ?_⟩
    · exact hSame ▸ h.pool
    · exact hSame ▸ h.records
    · exact hSame ▸ h.quiet
    · rw [hSame, hWritten, hDue]
      exact h.told
    · exact hSame ▸ h.touched
    · rw [hWritten, hDue]
      exact h.silent
    · rw [hSame, hWritten]
      exact h.entries

variable {floats : FloatRepr} {submitter : String} {steps : List JournalStep}

theorem journal_run (hPlanned : ∃ scheduler, Planned g pipeline scheduler plan)
    (hRun : Run (JournaledRun.Step floats host registry pipeline) (.submitted submitter) steps s) :
    JournalInv g plan (engineEvents steps) s := by
  have hKeeps := hRun.traces fun before s step t (h : JournalInv g plan (engineEvents before) s) hStep =>
    JournalMoves.journalInv hPlanned h hStep.moves.1
  exact hKeeps [] (journalInv_submitted submitter)

theorem JournalMoves.execution_run {step : JournalStep} (h : JournalMoves host registry pipeline s step t) :
    ∃ shown, Run (Execution.Step host registry pipeline) s.execution shown t.execution := by
  cases h with
  | executed ts event t hFree hStep => exact ⟨[event], .single hStep⟩
  | wrote ts job line worker t hLine hWorker hActive hSame => exact ⟨[], hSame ▸ .nil _⟩
  | printed ts job line t hWorker hSame => exact ⟨[], hSame ▸ .nil _⟩
  | streamed step t hSame => exact ⟨[], hSame ▸ .nil _⟩

theorem journal_execution_run
    (hRun : Run (JournaledRun.Step floats host registry pipeline) (.submitted submitter) steps s) :
    ∃ shown, Run (Execution.Step host registry pipeline) .initial shown s.execution :=
  hRun.simulates fun _ _ _ hStep => hStep.moves.1.execution_run

/-- A follower that has ended has sent each event once, in order. -/
theorem LoggedRun.Inv.received {logged : LoggedRun} (h : logged.Inv) {follower : Follower}
    (hFollower : follower ∈ logged.followers) (hEnded : follower.phase = .ended) :
    follower.sent = logged.written.map LogEvent.sse := by
  obtain ⟨done, pending, later, hWritten, hReads⟩ := h.tracks follower hFollower
  have hLines := hReads.lines
  rw [hEnded] at hLines
  cases List.map_eq_nil_iff.mp hLines.symm
  cases hReads.last (by rw [hEnded]; rfl)
  rw [hWritten, hReads.sent, List.append_nil, List.append_nil]

theorem logged_inv {logged : LoggedRun} {shown : List LogStep}
    (hRun : Run (LoggedRun.Step floats host registry pipeline) .initial shown logged) : logged.Inv := by
  have hKeeps := hRun.invariant fun s step t (h : s.Inv) hStep => h.next hStep
  exact hKeeps LoggedRun.inv_initial

theorem filterMap_readSse (floats : FloatRepr) (written : List LogEvent) :
    (written.map LogEvent.sse).filterMap (readSse floats) = written := by
  induction written with
  | nil => rfl
  | cons event rest ih => rw [List.map_cons, List.filterMap_cons_some (readSse_sse event), ih]

/-- Whatever the order of the threads, the log of a job goes with its entry: a job that was executed has pulled the
whole lockfile in its order and published what its entry lists, a corrupted one has named the download that did
not match, and a skipped one has written nothing. Whoever has followed the run to its end has read the same. -/
theorem transcripts (hRun : Run (JournaledRun.Step floats host registry pipeline) (.submitted submitter) steps s) :
    (∀ job entry, s.execution.run.jobs.get? job = some entry →
      Transcript s.execution.run.lockfile job entry (linesOf job s.written)) ∧
    ∀ follower ∈ s.logged.followers, follower.phase = .ended →
      ∀ job entry, s.execution.run.jobs.get? job = some entry →
        Transcript s.execution.run.lockfile job entry (linesOf job (follower.sent.filterMap (readSse floats))) := by
  have hEntries : ∀ job entry, s.execution.run.jobs.get? job = some entry →
      Transcript s.execution.run.lockfile job entry (linesOf job s.written) := by
    by_cases hPlans : ∃ scheduler plan, Plans pipeline scheduler plan
    · obtain ⟨scheduler, plan, hPlans⟩ := hPlans
      obtain ⟨g, hPlanned⟩ := hPlans.exists_planned
      exact (journal_run ⟨scheduler, hPlanned⟩ hRun).entries
    · intro job entry hGet
      obtain ⟨shown, hExecution⟩ := journal_execution_run hRun
      rw [(run_poolless hPlans hExecution).2] at hGet
      cases hGet
  refine ⟨hEntries, fun follower hFollower hEnded job entry hGet => ?_⟩
  obtain ⟨shown, hLogged⟩ := journal_logged_run hRun
  rw [(logged_inv hLogged).received hFollower hEnded, filterMap_readSse]
  exact hEntries job entry hGet

def corruptedPipeline : PipelineConfig :=
  ⟨"service", "1.0.0", [entryOf "lib-core" "1.0.0"], .ofList [("build", { steps := [⟨"compile", "make"⟩] })], []⟩

/-- The blob of `lib-core` is not the one that its metadata names. -/
def corruptedSteps : List JournalStep :=
  [.execute "" .resolve, .execute "" .plan, .execute "" .enterLevel, .execute "" .submit, .execute "" .submit,
    .execute "" (.work "build" .start), .write "10:00" "build", .execute "10:01" (.work "build" (.pull 200 [1])),
    .execute "10:02" (.collect "build"), .execute "" .closePool, .execute "" (.finish "10:03")]

theorem transcripts_corrupted : ∃ s : JournaledRun,
    Run (JournaledRun.Step zeroFloats exampleHost httpRegistry corruptedPipeline) (.submitted "dev") corruptedSteps s ∧
    s.execution.run.jobs.get? "build" = some integrityEntry ∧ (linesOf "build" s.written).length = 3 ∧
    Transcript s.execution.run.lockfile "build" integrityEntry (linesOf "build" s.written) := by
  have hSome : ((execute (JournaledRun.next zeroFloats exampleHost httpRegistry corruptedPipeline)
      (.submitted "dev") corruptedSteps).any fun s =>
        s.execution.run.jobs.get? "build" = some integrityEntry ∧ (linesOf "build" s.written).length = 3) = true := by
    decide +kernel
  obtain ⟨s, hExecute, hEnd⟩ := (Option.any_eq_true _ _).mp hSome
  obtain ⟨hEntry, hLines⟩ := of_decide_eq_true hEnd
  have hRun := run_stepsOf_iff.mpr hExecute
  exact ⟨s, hRun, hEntry, hLines, (transcripts hRun).1 "build" integrityEntry hEntry⟩

end Forge.Engine
