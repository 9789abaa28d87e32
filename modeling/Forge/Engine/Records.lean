import Forge.Engine.RunResult

/-! # The records of a run and its events

What a worker has behind it is told by the events of the run. The statuses of the scheduler and the
entries of the run are kept in step with them, whatever the workers meet.
-/
namespace Forge.Engine
open Forge.Python Forge.Registry Forge.Theory Relation
set_option autoImplicit false

/-! ## The events of a job -/

def Event.answerTo (job : String) : Event → Option (Nat × Bytes)
  | .work j (.pull statusCode content) => if j = job then some (statusCode, content) else none
  | _ => none

/-- The answers to the downloads of a job, in order. -/
def answersTo (job : String) (events : List Event) : List (Nat × Bytes) :=
  events.filterMap (Event.answerTo job)

/-- A download that `pull_deps` accepts for a package. -/
def Verifies (dep : DepPull) (answer : Nat × Bytes) : Prop :=
  answer.1 = 200 ∧ sha256 answer.2 = dep.2.sha256

def Untouched (events : List Event) (job : String) : Prop := ∀ action, Event.work job action ∉ events

def Unexited (events : List Event) (job : String) : Prop :=
  ∀ exitCode, Event.work job (.exit exitCode) ∉ events

variable {events : List Event} {job : String} {e : Event}

theorem answersTo_append (rest : List Event) :
    answersTo job (events ++ rest) = answersTo job events ++ answersTo job rest :=
  List.filterMap_append

theorem Untouched.unexited (h : Untouched events job) : Unexited events job := fun _ => h _

theorem Untouched.answersTo_eq (h : Untouched events job) : answersTo job events = [] := by
  rw [answersTo, List.filterMap_eq_nil_iff]
  intro e he
  unfold Event.answerTo
  split
  · rename_i j statusCode content
    rw [if_neg]
    rintro rfl
    exact h _ he
  · rfl

theorem Untouched.next (h : Untouched events job) (hOther : ∀ action, e ≠ .work job action) :
    Untouched (events ++ [e]) job := by
  intro action hMem
  cases List.mem_append.mp hMem with
  | inl hOld => exact h action hOld
  | inr hNew => exact hOther action (List.mem_singleton.mp hNew).symm

theorem Unexited.next (h : Unexited events job) (hOther : ∀ exitCode, e ≠ .work job (.exit exitCode)) :
    Unexited (events ++ [e]) job := by
  intro exitCode hMem
  cases List.mem_append.mp hMem with
  | inl hOld => exact h exitCode hOld
  | inr hNew => exact hOther exitCode (List.mem_singleton.mp hNew).symm

theorem answersTo_next (hOther : ∀ action, e ≠ .work job action) :
    answersTo job (events ++ [e]) = answersTo job events := by
  have hUntouched : Untouched [e] job := fun action hMem =>
    hOther action (List.mem_singleton.mp hMem).symm
  rw [answersTo_append, hUntouched.answersTo_eq, List.append_nil]

/-! ## What a worker has behind it -/

def Worker.Fits (lockfile : Option Lockfile) (events : List Event) (job : String) : Worker → Prop
  | .queued => Untouched events job
  | .pulling rest => Unexited events job ∧
      ∃ pulled, depsOf lockfile = pulled ++ rest ∧ List.Forall₂ Verifies pulled (answersTo job events)
  | .running => Unexited events job
  | .walking _ _ => Event.work job (.exit 0) ∈ events
  | .posting _ _ _ _ => Event.work job (.exit 0) ∈ events
  | .answered _ _ _ _ _ _ => Event.work job (.exit 0) ∈ events
  | .returned result _ => Event.work job (.exit result.exitCode) ∈ events
  | .raised (.integrityError _ _ _ actual) => Unexited events job ∧
      ∃ content, Event.work job (.pull 200 content) ∈ events ∧ sha256 content = actual
  | .raised (.exception _) => True

theorem Works.fits {host : Host} {pipeline : PipelineConfig} {lockfile : Option Lockfile}
    {worker worker' : Worker} {action : Action}
    (h : Works host pipeline lockfile job worker action worker')
    (hFits : worker.Fits lockfile events job) :
    worker'.Fits lockfile (events ++ [.work job action]) job := by
  have hNew : Event.work job action ∈ events ++ [.work job action] := by simp
  cases h with
  | started =>
    have hUntouched : Untouched events job := hFits
    refine ⟨hUntouched.unexited.next (by simp), [], rfl, ?_⟩
    rw [answersTo_append, hUntouched.answersTo_eq]
    exact .nil
  | pulled dep rest content hSha =>
    obtain ⟨hUnexited, pulled, hSplit, hVerified⟩ := hFits
    refine ⟨hUnexited.next (by simp), pulled ++ [dep], by simp [hSplit], ?_⟩
    have hAnswer : answersTo job [.work job (.pull 200 content)] = [(200, content)] := by
      simp [answersTo, Event.answerTo]
    rw [answersTo_append, hAnswer]
    exact List.rel_append hVerified (.cons ⟨rfl, hSha⟩ .nil)
  | mismatched dep rest content hSha => exact ⟨hFits.1.next (by simp), content, hNew, rfl⟩
  | launched hRun =>
    have hUnexited : Unexited events job := hFits.1
    exact hUnexited.next (by simp)
  | succeeded => exact hNew
  | failed exitCode hExit => exact hNew
  | absent artifact rest published => exact List.mem_append_left _ hFits
  | found artifact rest published data hHold => exact List.mem_append_left _ hFits
  | handled artifact data rest published statusCode text => exact List.mem_append_left _ hFits
  | created artifact data statusCode text rest published hStatus => exact List.mem_append_left _ hFits
  | finished published => exact List.mem_append_left _ hFits
  | refused dep rest statusCode content message hStatus => trivial
  | rejected artifact data statusCode text rest published message hStatus => trivial
  | raised worker message hActive => trivial

theorem Worker.Fits.next {lockfile : Option Lockfile} {worker : Worker}
    (h : worker.Fits lockfile events job) (hOther : ∀ action, e ≠ .work job action) :
    worker.Fits lockfile (events ++ [e]) job := by
  have hExit : ∀ exitCode, e ≠ .work job (.exit exitCode) := fun _ => hOther _
  cases worker with
  | queued => exact Untouched.next h hOther
  | pulling rest =>
    refine ⟨h.1.next hExit, ?_⟩
    rw [answersTo_next hOther]
    exact h.2
  | running => exact Unexited.next h hExit
  | raised exc =>
    cases exc with
    | integrityError name version expected actual =>
      obtain ⟨hUnexited, content, hMem, hSha⟩ := h
      exact ⟨hUnexited.next hExit, content, List.mem_append_left _ hMem, hSha⟩
    | exception message => trivial
  | _ => exact List.mem_append_left _ h

/-! ## Entries -/

/-- The entry of a job tells what the job did. -/
inductive Reports (events : List Event) (job : String) : JobEntry → Prop where
  | executed (exitCode : Int) (published : List PublishedArtifact)
      (hExit : Event.work job (.exit exitCode) ∈ events) :
      Reports events job ⟨.job (JobResult.mk exitCode).status, some exitCode, some published⟩
  | corrupted (content : Bytes) (hPull : Event.work job (.pull 200 content) ∈ events)
      (hUnexited : Unexited events job) : Reports events job integrityEntry
  | skipped (hUntouched : Untouched events job) : Reports events job skippedEntry

theorem Reports.next {entry : JobEntry} (h : Reports events job entry)
    (hOther : ∀ action, e ≠ .work job action) : Reports (events ++ [e]) job entry := by
  cases h with
  | executed exitCode published hExit =>
    exact .executed exitCode published (List.mem_append_left _ hExit)
  | corrupted content hPull hUnexited =>
    exact .corrupted content (List.mem_append_left _ hPull) (hUnexited.next fun _ => hOther _)
  | skipped hUntouched => exact .skipped (hUntouched.next hOther)

/-- The job has exited 0, and its result has been recorded. -/
structure Completed (events : List Event) (jobs : Dict String JobEntry) (job : String) : Prop where
  entry : (jobs.get? job).map JobEntry.status = some (.job .succeeded)
  exited : Event.work job (.exit 0) ∈ events

variable {jobs jobs' : Dict String JobEntry}

theorem Completed.next (h : Completed events jobs job) : Completed (events ++ [e]) jobs job :=
  ⟨h.entry, List.mem_append_left _ h.exited⟩

theorem Completed.mem_keys (h : Completed events jobs job) : job ∈ jobs.keys := by
  obtain ⟨entry, hGet, -⟩ := Option.map_eq_some_iff.mp h.entry
  exact Dict.mem_keys_of_get? hGet

theorem Completed.set (h : Completed events jobs job) {other : String} (hOther : job ≠ other)
    (entry : JobEntry) : Completed events (jobs.set other entry) job := by
  refine ⟨?_, h.exited⟩
  rw [Dict.get?_set, if_neg hOther]
  exact h.entry

theorem Completed.skipLevel (h : Completed events jobs job) (level : List String) :
    Completed events (level.foldl setSkipped jobs) job := by
  refine ⟨?_, h.exited⟩
  rw [foldl_setSkipped_get?, if_neg fun hNew => hNew.2 h.mem_keys]
  exact h.entry

/-! ## The two records -/

variable {g : JobGraph} {s s' s₀ : DAGScheduler}

/-- The statuses of the scheduler and the entries of the run, after the given events. -/
structure Records (g : JobGraph) (events : List Event) (jobs : Dict String JobEntry) (s : DAGScheduler) :
    Prop where
  built : s.Built g.jobs
  keys : s.jobStatuses.keys = g.jobs.keys
  notRunning : ∀ j, s.getJobStatus j ≠ .running
  succeeded : ∀ j, s.getJobStatus j = .succeeded → Completed events jobs j ∧
    ∀ dep, Needs g.jobs j dep → s.getJobStatus dep = .succeeded
  blocked : ∀ j dep, Needs g.jobs j dep →
    s.getJobStatus dep = .failed ∨ s.getJobStatus dep = .skipped → s.getJobStatus j = .skipped
  failed : ∀ j, s.getJobStatus j = .failed → ¬ Untouched events j
  skipped : ∀ j, s.getJobStatus j = .skipped → j ∈ g.jobs.keys ∧ Untouched events j
  entries : ∀ j entry, jobs.get? j = some entry → j ∈ g.jobs.keys ∧ Reports events j entry
  queued : ∀ j, s.getJobStatus j = .queued → j ∉ jobs.keys

/-- A job that is not skipped once its needs are settled. -/
theorem Records.needs_succeeded (h : Records g events jobs s) (hJob : s.getJobStatus job ≠ .skipped)
    {dep : String} (hNeeds : Needs g.jobs job dep) (hSettled : s.getJobStatus dep ≠ .queued) :
    s.getJobStatus dep = .succeeded := by
  cases hStatus : s.getJobStatus dep with
  | queued => exact absurd hStatus hSettled
  | running => exact absurd hStatus (h.notRunning dep)
  | succeeded => rfl
  | failed => exact absurd (h.blocked job dep hNeeds (.inl hStatus)) hJob
  | skipped => exact absurd (h.blocked job dep hNeeds (.inr hStatus)) hJob

theorem Records.completed (h : Records g events jobs s)
    (hNeeds : ∀ dep, Needs g.jobs job dep → s.getJobStatus dep = .succeeded) {dep : String}
    (hPath : TransGen (Needs g.jobs) job dep) : Completed events jobs dep := by
  have hStatus : s.getJobStatus dep = .succeeded := by
    induction hPath with
    | single hEdge => exact hNeeds _ hEdge
    | tail _ hEdge ih => exact (h.succeeded _ ih).2 _ hEdge
  exact (h.succeeded dep hStatus).1

/-- Only jobs that are still queued, for the scheduler, take steps. -/
theorem Records.next (h : Records g events jobs s)
    (hWork : ∀ j action, e = .work j action → s.getJobStatus j = .queued) :
    Records g (events ++ [e]) jobs s where
  built := h.built
  keys := h.keys
  notRunning := h.notRunning
  succeeded j hStatus := ⟨(h.succeeded j hStatus).1.next, (h.succeeded j hStatus).2⟩
  blocked := h.blocked
  failed j hStatus hUntouched := h.failed j hStatus fun action hMem =>
    hUntouched action (List.mem_append_left _ hMem)
  skipped j hStatus := by
    refine ⟨(h.skipped j hStatus).1, (h.skipped j hStatus).2.next fun action hEvent => ?_⟩
    cases hStatus.symm.trans (hWork j action hEvent)
  entries j entry hGet := by
    refine ⟨(h.entries j entry hGet).1, (h.entries j entry hGet).2.next fun action hEvent => ?_⟩
    exact h.queued j (hWork j action hEvent) (Dict.mem_keys_of_get? hGet)
  queued := h.queued

/-- Skipped jobs may get their entries. -/
theorem Records.fill (h : Records g events jobs s)
    (hFill : ∀ j, jobs'.get? j = jobs.get? j ∨
      s.getJobStatus j = .skipped ∧ jobs'.get? j = some skippedEntry) : Records g events jobs' s where
  built := h.built
  keys := h.keys
  notRunning := h.notRunning
  succeeded j hStatus := by
    obtain ⟨⟨hEntry, hExited⟩, hNeeds⟩ := h.succeeded j hStatus
    cases hFill j with
    | inl hSame => exact ⟨⟨hSame ▸ hEntry, hExited⟩, hNeeds⟩
    | inr hSkipped => cases hStatus.symm.trans hSkipped.1
  blocked := h.blocked
  failed := h.failed
  skipped := h.skipped
  entries j entry hGet := by
    cases hFill j with
    | inl hSame => exact h.entries j entry (hSame ▸ hGet)
    | inr hSkipped =>
      obtain ⟨hJob, hUntouched⟩ := h.skipped j hSkipped.1
      cases hSkipped.2.symm.trans hGet
      exact ⟨hJob, .skipped hUntouched⟩
  queued j hStatus := by
    cases hFill j with
    | inl hSame =>
      rw [Dict.mem_keys_iff, hSame, ← Dict.mem_keys_iff]
      exact h.queued j hStatus
    | inr hSkipped => cases hStatus.symm.trans hSkipped.1

theorem Records.copySkipped (h : Records g events jobs s) : Records g events (copySkipped s jobs) s := by
  apply h.fill
  intro j
  rw [copySkipped_eq, foldl_setSkipped_get?]
  split
  · rename_i hNew
    exact .inr ⟨(mem_skippedNames.mp hNew.1).2, rfl⟩
  · exact .inl rfl

/-- The collection of a job changes no other status of its level or of the levels below. -/
structure Advances (g : JobGraph) (job : String) (s s' : DAGScheduler) : Prop where
  settled : s'.getJobStatus job ≠ .queued
  same : ∀ j, j ≠ job → g.level j ≤ g.level job → s'.getJobStatus j = s.getJobStatus j

theorem Records.succeed (h : Records g events jobs s) (hJob : job ∈ g.jobs.keys)
    (hQueued : s.getJobStatus job = .queued)
    (hNeeds : ∀ dep, Needs g.jobs job dep → s.getJobStatus dep = .succeeded)
    (hExit : Event.work job (.exit 0) ∈ events) (published : List PublishedArtifact) :
    Records g events (jobs.set job ⟨.job .succeeded, some 0, some published⟩)
      (s.updateJobStatus job .succeeded) := by
  have hStatus : ∀ j, (s.updateJobStatus job .succeeded).getJobStatus j =
      if j = job then .succeeded else s.getJobStatus j :=
    fun j => updateJobStatus_getJobStatus s job j .succeeded
  have hKept : ∀ dep, s.getJobStatus dep = .succeeded →
      (s.updateJobStatus job .succeeded).getJobStatus dep = .succeeded := by
    intro dep hDep
    rw [hStatus, hDep, ite_self]
  refine ⟨updateJobStatus_built h.built job _, updateJobStatus_keys h.keys hJob _, ?_, ?_, ?_, ?_, ?_, ?_,
    ?_⟩
  · intro j
    rw [hStatus]
    split
    · simp
    · exact h.notRunning j
  · intro j hSucceeded
    by_cases hSame : j = job
    · subst hSame
      exact ⟨⟨by simp, hExit⟩, fun dep hDep => hKept dep (hNeeds dep hDep)⟩
    · rw [hStatus, if_neg hSame] at hSucceeded
      obtain ⟨hCompleted, hBelow⟩ := h.succeeded j hSucceeded
      exact ⟨hCompleted.set hSame _, fun dep hDep => hKept dep (hBelow dep hDep)⟩
  · intro j dep hEdge hBad
    have hDep : dep ≠ job := by
      rintro rfl
      rw [hStatus, if_pos rfl] at hBad
      simp at hBad
    rw [hStatus, if_neg hDep] at hBad
    have hSkipped := h.blocked j dep hEdge hBad
    have hNe : j ≠ job := by
      rintro rfl
      cases hQueued.symm.trans hSkipped
    rw [hStatus, if_neg hNe, hSkipped]
  · intro j hFailed
    by_cases hSame : j = job
    · rw [hStatus, if_pos hSame] at hFailed
      cases hFailed
    · rw [hStatus, if_neg hSame] at hFailed
      exact h.failed j hFailed
  · intro j hSkipped
    by_cases hSame : j = job
    · rw [hStatus, if_pos hSame] at hSkipped
      cases hSkipped
    · rw [hStatus, if_neg hSame] at hSkipped
      exact h.skipped j hSkipped
  · intro j entry hGet
    rw [Dict.get?_set] at hGet
    split at hGet
    · rename_i hSame
      cases hGet
      cases hSame
      exact ⟨hJob, .executed 0 published hExit⟩
    · exact h.entries j entry hGet
  · intro j hLeft
    by_cases hSame : j = job
    · rw [hStatus, if_pos hSame] at hLeft
      cases hLeft
    · rw [hStatus, if_neg hSame] at hLeft
      simp [hSame, h.queued j hLeft]

/-! ## A job that fails -/

/-- The failed job and what its failure reaches, which is above its level. -/
structure Fells (g : JobGraph) (job : String) (s s' : DAGScheduler) (Over : String → Prop) : Prop where
  failed : s'.getJobStatus job = .failed
  skipped : ∀ j, Over j → s'.getJobStatus j = .skipped
  others : ∀ j, j ≠ job → ¬ Over j → s'.getJobStatus j = s.getJobStatus j
  above : ∀ j, Over j → j ∈ g.jobs.keys ∧ g.level job < g.level j
  spared : ∀ j, s.getJobStatus j = .succeeded → j ≠ job ∧ ¬ Over j
  spreads : ∀ j dep, Needs g.jobs j dep → dep = job ∨ Over dep → s.getJobStatus j ≠ .succeeded → Over j

theorem Fells.of_marked (hQueued : s.getJobStatus job = .queued) (hMarked : s₀.Marked g.jobs job s')
    (hOthers : ∀ j, j ≠ job → s₀.getJobStatus j = s.getJobStatus j) :
    Fells g job s s' (TransGen (SkipEdge g.jobs (s₀.DoneBut job)) job) := by
  have hDoneBut : ∀ j, s₀.DoneBut job j ↔ j ≠ job ∧ s.getJobStatus j = .succeeded :=
    fun j => and_congr_right fun hNe => by rw [hOthers j hNe]
  refine ⟨hMarked.failed, hMarked.skipped, fun j hNe hNot => (hMarked.others j hNe hNot).trans (hOthers j hNe),
    fun j hPath => ?_, fun j hDone => ?_, fun j dep hEdge hHit hNot => ?_⟩
  · obtain ⟨dep, hEdge, -⟩ := TransGen.head'_iff.mp (needs_of_path hPath)
    exact ⟨hEdge.mem_keys, JobGraph.level_lt (needs_of_path hPath)⟩
  · have hNe : j ≠ job := by
      rintro rfl
      cases hQueued.symm.trans hDone
    exact ⟨hNe, fun hPath => not_done_of_path hPath ((hDoneBut j).mpr ⟨hNe, hDone⟩)⟩
  · have hFresh : ¬ s₀.DoneBut job j := fun hDone => hNot ((hDoneBut j).mp hDone).2
    cases hHit with
    | inl hSame => exact .single ⟨hSame ▸ hEdge, hFresh⟩
    | inr hPath => exact .tail hPath ⟨hEdge, hFresh⟩

section
variable {Over : String → Prop}

theorem Fells.before (hFells : Fells g job s s' Over) {j : String} {status : JobStatus}
    (h : s'.getJobStatus j = status) (hFailed : status ≠ .failed) (hSkipped : status ≠ .skipped) :
    j ≠ job ∧ s.getJobStatus j = status := by
  have hNe : j ≠ job := by
    rintro rfl
    exact hFailed (h.symm.trans hFells.failed)
  refine ⟨hNe, ?_⟩
  rw [← hFells.others j hNe fun hOver => hSkipped (h.symm.trans (hFells.skipped j hOver)), h]

theorem Fells.succeeded (hFells : Fells g job s s' Over) {j : String} (h : s.getJobStatus j = .succeeded) :
    s'.getJobStatus j = .succeeded := by
  obtain ⟨hNe, hNot⟩ := hFells.spared j h
  rw [hFells.others j hNe hNot, h]

theorem Fells.blocked (hFells : Fells g job s s' Over) (h : Records g events jobs s)
    (hQueued : s.getJobStatus job = .queued) {j dep : String} (hEdge : Needs g.jobs j dep)
    (hBad : s'.getJobStatus dep = .failed ∨ s'.getJobStatus dep = .skipped) : s'.getJobStatus j = .skipped := by
  by_cases hHit : dep = job ∨ Over dep
  · apply hFells.skipped
    apply hFells.spreads j dep hEdge hHit
    intro hDone
    obtain ⟨hNe, hNot⟩ := hFells.spared dep ((h.succeeded j hDone).2 dep hEdge)
    cases hHit with
    | inl hSame => exact hNe hSame
    | inr hOver => exact hNot hOver
  · rw [not_or] at hHit
    rw [hFells.others dep hHit.1 hHit.2] at hBad
    have hSkipped := h.blocked j dep hEdge hBad
    by_cases hOver : Over j
    · exact hFells.skipped j hOver
    · have hNe : j ≠ job := by
        rintro rfl
        cases hQueued.symm.trans hSkipped
      rw [hFells.others j hNe hOver, hSkipped]

/-- No step has been taken by jobs above the level of the failed job. -/
theorem Fells.untouched (hFells : Fells g job s s' Over) (h : Records g events jobs s)
    (hTouched : ∀ j action, Event.work j action ∈ events → g.level j ≤ g.level job) {j : String}
    (hSkipped : s'.getJobStatus j = .skipped) : j ∈ g.jobs.keys ∧ Untouched events j := by
  by_cases hOver : Over j
  · obtain ⟨hKey, hAbove⟩ := hFells.above j hOver
    refine ⟨hKey, fun action hMem => ?_⟩
    have hBelow := hTouched j action hMem
    omega
  · have hNe : j ≠ job := by
      rintro rfl
      cases hFells.failed.symm.trans hSkipped
    exact h.skipped j (hFells.others j hNe hOver ▸ hSkipped)

theorem Fells.advances (hFells : Fells g job s s' Over) : Advances g job s s' := by
  constructor
  · rw [hFells.failed]
    simp
  · intro j hNe hLevel
    apply hFells.others j hNe
    intro hOver
    have hAbove := (hFells.above j hOver).2
    omega

end

/-- The dependents of the failed job can be skipped. -/
theorem Records.mark (h : Records g events jobs s) (hJob : job ∈ g.jobs.keys)
    (hQueued : s.getJobStatus job = .queued)
    (hTouched : ∀ j action, Event.work j action ∈ events → g.level j ≤ g.level job) {entry : JobEntry}
    (hEntry : Reports events job entry) (hEvents : ¬ Untouched events job) (hBuilt : s₀.Built g.jobs)
    (hKeys : s₀.jobStatuses.keys = g.jobs.keys)
    (hOthers : ∀ j, j ≠ job → s₀.getJobStatus j = s.getJobStatus j) :
    ∃ s', s₀.markJobFailed job = some s' ∧ Records g events (jobs.set job entry) s' ∧
      Advances g job s s' := by
  obtain ⟨s', hMark, hMarked⟩ :=
    DAGScheduler.markJobFailed_marked hBuilt g.acyclic hKeys hJob
  have hFells := Fells.of_marked hQueued hMarked hOthers
  refine ⟨s', hMark, ⟨hMarked.built, hMarked.keys, ?_, ?_, ?_, ?_, ?_, ?_, ?_⟩, hFells.advances⟩
  · intro j hRunning
    exact h.notRunning j (hFells.before hRunning (by simp) (by simp)).2
  · intro j hSucceeded
    obtain ⟨hNe, hBefore⟩ := hFells.before hSucceeded (by simp) (by simp)
    obtain ⟨hCompleted, hBelow⟩ := h.succeeded j hBefore
    exact ⟨hCompleted.set hNe entry, fun dep hDep => hFells.succeeded (hBelow dep hDep)⟩
  · intro j dep hEdge hBad
    exact hFells.blocked h hQueued hEdge hBad
  · intro j hFailed
    by_cases hSame : j = job
    · exact hSame ▸ hEvents
    · refine h.failed j (hFells.others j hSame (fun hOver => ?_) ▸ hFailed)
      cases (hFells.skipped j hOver).symm.trans hFailed
  · intro j hSkipped
    exact hFells.untouched h hTouched hSkipped
  · intro j entry' hGet
    rw [Dict.get?_set] at hGet
    split at hGet
    · rename_i hSame
      cases hGet
      cases hSame
      exact ⟨hJob, hEntry⟩
    · exact h.entries j entry' hGet
  · intro j hLeft
    obtain ⟨hNe, hBefore⟩ := hFells.before hLeft (by simp) (by simp)
    simp [hNe, h.queued j hBefore]

end Forge.Engine
