import Forge.Engine.Records
import Forge.Engine.Soundness

/-! # The records in every run

A level is opened once all levels below are settled, and its jobs stay queued for the scheduler until
they are collected. Whatever the workers meet, and whenever the run is interrupted, the records and the
workers fit the events so far.
-/
namespace Forge.Engine
open Forge.Python Forge.Registry Forge.Theory Relation
set_option autoImplicit false

variable {g : JobGraph} {events : List Event} {e : Event} {s t : Execution} {scheduler : DAGScheduler}
  {n : ℕ} {sub : List String} {job : String} {jobs : Dict String JobEntry}

/-- No job below level `n` is queued. -/
def Settled (g : JobGraph) (n : ℕ) (scheduler : DAGScheduler) : Prop :=
  ∀ j ∈ g.jobs.keys, g.level j < n → scheduler.getJobStatus j ≠ .queued

def Reported (g : JobGraph) (events : List Event) (jobs : Dict String JobEntry) : Prop :=
  ∀ j entry, jobs.get? j = some entry → j ∈ g.jobs.keys ∧ Reports events j entry

/-- What the run leaves behind when it ends by itself. -/
structure Finalized (jobs : JobsConfig) (events : List Event) (run : RunState) : Prop where
  status : run.status = .succeeded ∨ run.status = .failed ∨ run.status = .integrityFailure
  completedAt : run.completedAt ≠ none
  entries : ∀ job ∈ jobs.keys, ∃ entry, run.jobs.get? job = some entry ∧ Reports events job entry

theorem Finalized.next {jobs : JobsConfig} {run : RunState} (h : Finalized jobs events run)
    (hOther : ∀ j action, e ≠ .work j action) : Finalized jobs (events ++ [e]) run := by
  refine ⟨h.status, h.completedAt, fun job hJob => ?_⟩
  obtain ⟨entry, hGet, hReports⟩ := h.entries job hJob
  exact ⟨entry, hGet, hReports.next (hOther job)⟩

/-! ## Between two levels -/

structure Between (g : JobGraph) (events : List Event) (jobs : Dict String JobEntry)
    (scheduler : DAGScheduler) (n : ℕ) (integrityFailed : Bool) : Prop where
  reported : Reported g events jobs
  passed : Passed g n jobs
  touched : ∀ j action, Event.work j action ∈ events → g.level j < n
  records : integrityFailed = false → Records g events jobs scheduler ∧ Settled g n scheduler

theorem Between.next {integrityFailed : Bool} (h : Between g events jobs scheduler n integrityFailed)
    (hOther : ∀ j action, e ≠ .work j action) :
    Between g (events ++ [e]) jobs scheduler n integrityFailed where
  reported j entry hGet := ⟨(h.reported j entry hGet).1, (h.reported j entry hGet).2.next (hOther j)⟩
  passed := h.passed
  touched j action hMem := by
    cases List.mem_append.mp hMem with
    | inl hOld => exact h.touched j action hOld
    | inr hNew => exact (hOther j action (List.mem_singleton.mp hNew).symm).elim
  records hFlag := by
    refine ⟨(h.records hFlag).1.next fun j action hWork => ?_, (h.records hFlag).2⟩
    exact (hOther j action hWork).elim

/-- Before the first level. -/
theorem Between.first (hBuilt : scheduler.Built g.jobs)
    (hStatuses : scheduler.jobStatuses.entries = g.jobs.keys.map fun job => (job, .queued))
    (hUntouched : ∀ j, Untouched events j) : Between g events .empty scheduler 0 false := by
  have hQueued := getJobStatus_of_queued hStatuses
  have hKeys := keys_of_queued hStatuses
  constructor
  · intro j entry hGet
    cases hGet
  · intro j _ hLevel
    exact absurd hLevel (Nat.not_lt_zero _)
  · intro j action hMem
    exact (hUntouched j action hMem).elim
  · intro _
    refine ⟨⟨hBuilt, hKeys, ?_, ?_, ?_, ?_, ?_, ?_, ?_⟩, fun j _ hLevel => absurd hLevel (Nat.not_lt_zero _)⟩
    · simp [hQueued]
    · simp [hQueued]
    · simp [hQueued]
    · simp [hQueued]
    · simp [hQueued]
    · intro j entry hGet
      cases hGet
    · intro j _ hMem
      cases hMem

/-- A level that is skipped because of an integrity failure. -/
theorem Between.skipLevel {level : List String} (h : Between g events jobs scheduler n true)
    (hLevel : ∀ j, j ∈ level ↔ j ∈ g.jobs.keys ∧ g.level j = n) :
    Between g events (level.foldl setSkipped jobs) scheduler (n + 1) true := by
  constructor
  · intro j entry hGet
    rw [foldl_setSkipped_get?] at hGet
    split at hGet
    · rename_i hNew
      cases hGet
      obtain ⟨hJob, hAt⟩ := (hLevel j).mp hNew.1
      refine ⟨hJob, .skipped fun action hMem => ?_⟩
      have hBelow := h.touched j action hMem
      omega
    · exact h.reported j entry hGet
  · intro j hJob hBelow
    rw [mem_keys_foldl_setSkipped, hLevel]
    rcases Nat.lt_succ_iff_lt_or_eq.mp hBelow with hLt | hEq
    · exact .inr (h.passed j hJob hLt)
    · exact .inl ⟨hJob, hEq⟩
  · intro j action hMem
    exact Nat.lt_succ_of_lt (h.touched j action hMem)
  · intro hFlag
    cases hFlag

/-! ## In a level -/

/-- In level `n`, of which the jobs in `sub` have been submitted. -/
structure OpenLevel (g : JobGraph) (events : List Event) (s : Execution) (scheduler : DAGScheduler)
    (n : ℕ) (sub : List String) : Prop where
  records : Records g events s.run.jobs scheduler
  passed : Passed g n s.run.jobs
  settled : Settled g n scheduler
  touched : ∀ j action, Event.work j action ∈ events → g.level j < n ∨ j ∈ s.futures.keys
  level : ∀ j ∈ sub, j ∈ g.jobs.keys ∧ g.level j = n
  members : ∀ j ∈ s.futures.keys, j ∈ sub
  others : ∀ j ∈ sub, j ∉ s.futures.keys → scheduler.getJobStatus j = .skipped ∧ j ∈ s.run.jobs.keys
  ready : ∀ j ∈ s.futures.keys, ∀ dep, Needs g.jobs j dep → scheduler.getJobStatus dep = .succeeded
  uncollected : ∀ j ∈ s.futures.keys, j ∉ s.collected → scheduler.getJobStatus j = .queued
  collected : ∀ j ∈ s.collected, j ∈ s.futures.keys ∧ scheduler.getJobStatus j ≠ .queued ∧
    j ∈ s.run.jobs.keys

theorem OpenLevel.completed (h : OpenLevel g events s scheduler n sub) {worker : Worker}
    (hWorker : s.futures.get? job = some worker) {dep : String}
    (hPath : TransGen (Needs g.jobs) job dep) : Completed events s.run.jobs dep :=
  h.records.completed (h.ready job (Dict.mem_keys_of_get? hWorker)) hPath

theorem OpenLevel.level_le (h : OpenLevel g events s scheduler n sub) (hJob : job ∈ s.futures.keys)
    (j : String) (action : Action) (hMem : Event.work j action ∈ events) : g.level j ≤ g.level job := by
  have hAt := (h.level job (h.members job hJob)).2
  cases h.touched j action hMem with
  | inl hBelow => omega
  | inr hHere =>
    have hSame := (h.level j (h.members j hHere)).2
    omega

theorem OpenLevel.next (h : OpenLevel g events s scheduler n sub)
    (hOther : ∀ j action, e ≠ .work j action) : OpenLevel g (events ++ [e]) s scheduler n sub where
  records := h.records.next fun j action hWork => (hOther j action hWork).elim
  passed := h.passed
  settled := h.settled
  touched j action hMem := by
    cases List.mem_append.mp hMem with
    | inl hOld => exact h.touched j action hOld
    | inr hNew => exact (hOther j action (List.mem_singleton.mp hNew).symm).elim
  level := h.level
  members := h.members
  others := h.others
  ready := h.ready
  uncollected := h.uncollected
  collected := h.collected

theorem OpenLevel.withMain (h : OpenLevel g events s scheduler n sub) (main : Main) :
    OpenLevel g events { s with main } scheduler n sub where
  records := h.records
  passed := h.passed
  settled := h.settled
  touched := h.touched
  level := h.level
  members := h.members
  others := h.others
  ready := h.ready
  uncollected := h.uncollected
  collected := h.collected

theorem OpenLevel.worked (h : OpenLevel g events s scheduler n sub) {worker : Worker}
    (hWorker : s.futures.get? job = some worker) (hFresh : job ∉ s.collected) (worker' : Worker)
    (action : Action) :
    OpenLevel g (events ++ [.work job action]) (s.worked job worker action worker') scheduler n sub := by
  have hKeys : (s.worked job worker action worker').futures.keys = s.futures.keys :=
    Dict.keys_set_of_get? worker' hWorker
  have hJob := Dict.mem_keys_of_get? hWorker
  constructor
  · apply h.records.next
    intro j action' hWork
    cases hWork
    exact h.uncollected job hJob hFresh
  · exact h.passed
  · exact h.settled
  · intro j action' hMem
    rw [hKeys]
    cases List.mem_append.mp hMem with
    | inl hOld => exact h.touched j action' hOld
    | inr hNew =>
      cases List.mem_singleton.mp hNew
      exact .inr hJob
  · exact h.level
  · rw [hKeys]
    exact h.members
  · rw [hKeys]
    exact h.others
  · rw [hKeys]
    exact h.ready
  · rw [hKeys]
    exact h.uncollected
  · rw [hKeys]
    exact h.collected

theorem Between.openPool (h : Between g events s.run.jobs scheduler n false) (main : Main) :
    OpenLevel g events { s with main, futures := .empty, collected := [] } scheduler n [] where
  records := (h.records rfl).1
  passed := h.passed
  settled := (h.records rfl).2
  touched j action hMem := .inl (h.touched j action hMem)
  level _ hj := (List.not_mem_nil hj).elim
  members _ hj := (List.not_mem_nil hj).elim
  others _ hj := (List.not_mem_nil hj).elim
  ready _ hj := (List.not_mem_nil hj).elim
  uncollected _ hj := (List.not_mem_nil hj).elim
  collected _ hj := (List.not_mem_nil hj).elim

theorem OpenLevel.skip (h : OpenLevel g events s scheduler n sub) (hJob : job ∈ g.jobs.keys)
    (hLevel : g.level job = n) (hSkipped : scheduler.getJobStatus job = .skipped) (main : Main) :
    OpenLevel g events { s with run := { s.run with jobs := s.run.jobs.set job skippedEntry }, main }
      scheduler n (sub ++ [job]) := by
  have hGrow : s.run.jobs.keys ⊆ (s.run.jobs.set job skippedEntry).keys :=
    fun j hj => Dict.mem_keys_set.mpr (.inr hj)
  constructor
  · apply h.records.fill
    intro j
    rw [Dict.get?_set]
    split
    · rename_i hSame
      exact .inr ⟨hSame ▸ hSkipped, rfl⟩
    · exact .inl rfl
  · exact h.passed.mono hGrow
  · exact h.settled
  · exact h.touched
  · intro j hj
    cases List.mem_append.mp hj with
    | inl hOld => exact h.level j hOld
    | inr hNew =>
      cases List.mem_singleton.mp hNew
      exact ⟨hJob, hLevel⟩
  · exact fun j hj => List.mem_append_left _ (h.members j hj)
  · intro j hj hNot
    cases List.mem_append.mp hj with
    | inl hOld => exact ⟨(h.others j hOld hNot).1, hGrow (h.others j hOld hNot).2⟩
    | inr hNew =>
      cases List.mem_singleton.mp hNew
      exact ⟨hSkipped, Dict.mem_keys_set.mpr (.inl rfl)⟩
  · exact h.ready
  · exact h.uncollected
  · exact fun j hj => ⟨(h.collected j hj).1, (h.collected j hj).2.1, hGrow (h.collected j hj).2.2⟩

theorem OpenLevel.untouched (h : OpenLevel g events s scheduler n sub) (hLevel : g.level job = n)
    (hFresh : job ∉ s.futures.keys) : Untouched events job := by
  intro action hMem
  cases h.touched job action hMem with
  | inl hBelow => omega
  | inr hHere => exact hFresh hHere

theorem OpenLevel.submit (h : OpenLevel g events s scheduler n sub) (hJob : job ∈ g.jobs.keys)
    (hLevel : g.level job = n) (hFresh : job ∉ s.futures.keys)
    (hNot : scheduler.getJobStatus job ≠ .skipped) (main : Main) :
    OpenLevel g events { s with main, futures := s.futures.set job .queued } scheduler n (sub ++ [job]) := by
  have hUntouched := h.untouched hLevel hFresh
  have hQueued : scheduler.getJobStatus job = .queued := by
    cases hStatus : scheduler.getJobStatus job with
    | queued => rfl
    | running => exact absurd hStatus (h.records.notRunning job)
    | succeeded => exact (hUntouched _ (h.records.succeeded job hStatus).1.exited).elim
    | failed => exact absurd hUntouched (h.records.failed job hStatus)
    | skipped => exact absurd hStatus hNot
  constructor
  · exact h.records
  · exact h.passed
  · exact h.settled
  · exact fun j action hMem => (h.touched j action hMem).imp_right fun hOld =>
      Dict.mem_keys_set.mpr (.inr hOld)
  · intro j hj
    cases List.mem_append.mp hj with
    | inl hOld => exact h.level j hOld
    | inr hNew =>
      cases List.mem_singleton.mp hNew
      exact ⟨hJob, hLevel⟩
  · intro j hj
    cases Dict.mem_keys_set.mp hj with
    | inl hSame => simp [hSame]
    | inr hOld => exact List.mem_append_left _ (h.members j hOld)
  · intro j hj hAbsent
    rw [Dict.mem_keys_set, not_or] at hAbsent
    cases List.mem_append.mp hj with
    | inl hOld => exact h.others j hOld hAbsent.2
    | inr hNew => exact (hAbsent.1 (List.mem_singleton.mp hNew)).elim
  · intro j hj dep hNeeds
    cases Dict.mem_keys_set.mp hj with
    | inl hSame =>
      subst hSame
      have hBelow := JobGraph.level_lt_of_needs hNeeds
      exact h.records.needs_succeeded hNot hNeeds
        (h.settled dep (g.known j dep hNeeds) (hLevel ▸ hBelow))
    | inr hOld => exact h.ready j hOld dep hNeeds
  · intro j hj hLeft
    cases Dict.mem_keys_set.mp hj with
    | inl hSame => exact hSame ▸ hQueued
    | inr hOld => exact h.uncollected j hOld hLeft
  · exact fun j hj => ⟨Dict.mem_keys_set.mpr (.inr (h.collected j hj).1), (h.collected j hj).2⟩

/-- The collection of one job of the level, whatever its result. -/
theorem OpenLevel.collect {scheduler' : DAGScheduler} (h : OpenLevel g events s scheduler n sub)
    (hJob : job ∈ s.futures.keys) (hRecords : Records g events t.run.jobs scheduler')
    (hAdvances : Advances g job scheduler scheduler') (hEntry : job ∈ t.run.jobs.keys)
    (hGrow : s.run.jobs.keys ⊆ t.run.jobs.keys) (hFutures : t.futures = s.futures)
    (hCollected : t.collected = job :: s.collected) : OpenLevel g events t scheduler' n sub := by
  have hAt := (h.level job (h.members job hJob)).2
  have hSame : ∀ j, j ≠ job → g.level j ≤ n → scheduler'.getJobStatus j = scheduler.getJobStatus j :=
    fun j hNe hLevel => hAdvances.same j hNe (hAt ▸ hLevel)
  have hLevel : ∀ j ∈ sub, g.level j ≤ n := fun j hj => (h.level j hj).2.le
  constructor
  · exact hRecords
  · exact h.passed.mono hGrow
  · intro j hKey hBelow
    have hNe : j ≠ job := by
      rintro rfl
      omega
    rw [hSame j hNe hBelow.le]
    exact h.settled j hKey hBelow
  · rw [hFutures]
    exact h.touched
  · exact h.level
  · rw [hFutures]
    exact h.members
  · rw [hFutures]
    intro j hj hNot
    have hNe : j ≠ job := by
      rintro rfl
      exact hNot hJob
    rw [hSame j hNe (hLevel j hj)]
    exact ⟨(h.others j hj hNot).1, hGrow (h.others j hj hNot).2⟩
  · rw [hFutures]
    intro j hj dep hNeeds
    have hBelow := JobGraph.level_lt_of_needs hNeeds
    rw [(h.level j (h.members j hj)).2] at hBelow
    have hNe : dep ≠ job := by
      rintro rfl
      omega
    rw [hSame dep hNe hBelow.le]
    exact h.ready j hj dep hNeeds
  · rw [hFutures, hCollected]
    intro j hj hLeft
    rw [List.mem_cons, not_or] at hLeft
    rw [hSame j hLeft.1 (hLevel j (h.members j hj))]
    exact h.uncollected j hj hLeft.2
  · rw [hFutures, hCollected]
    intro j hj
    by_cases hNe : j = job
    · exact ⟨hNe ▸ hJob, hNe ▸ hAdvances.settled, hNe ▸ hEntry⟩
    · obtain ⟨hFuture, hStatus, hKey⟩ := h.collected j (List.mem_of_ne_of_mem hNe hj)
      rw [hSame j hNe (hLevel j (h.members j hFuture))]
      exact ⟨hFuture, hStatus, hGrow hKey⟩

theorem OpenLevel.close (h : OpenLevel g events s scheduler n sub)
    (hSub : ∀ j ∈ g.jobs.keys, g.level j = n → j ∈ sub) (hAll : ∀ j ∈ s.futures.keys, j ∈ s.collected)
    (integrityFailed : Bool) : Between g events s.run.jobs scheduler (n + 1) integrityFailed where
  reported := h.records.entries
  passed j hJob hLevel := by
    rcases Nat.lt_succ_iff_lt_or_eq.mp hLevel with hBelow | hHere
    · exact h.passed j hJob hBelow
    · by_cases hFuture : j ∈ s.futures.keys
      · exact (h.collected j (hAll j hFuture)).2.2
      · exact (h.others j (hSub j hJob hHere) hFuture).2
  touched j action hMem := by
    cases h.touched j action hMem with
    | inl hBelow => exact Nat.lt_succ_of_lt hBelow
    | inr hHere => exact Nat.lt_succ_of_le (h.level j (h.members j hHere)).2.le
  records _ := by
    refine ⟨h.records, fun j hJob hLevel => ?_⟩
    rcases Nat.lt_succ_iff_lt_or_eq.mp hLevel with hBelow | hHere
    · exact h.settled j hJob hBelow
    · by_cases hFuture : j ∈ s.futures.keys
      · exact (h.collected j (hAll j hFuture)).2.1
      · rw [(h.others j (hSub j hJob hHere) hFuture).1]
        simp

end Forge.Engine
