import Forge.Engine.Reference
import Forge.Engine.Skipping

/-! # The two records of job statuses

The scheduler's statuses and the entries of the run, as functions of the jobs whose results have been
collected. Both are updated by the same collections, but by different branches.
-/
namespace Forge.Engine
open Forge.Python Forge.Theory Relation
set_option autoImplicit false

variable {g : JobGraph} {outcome : String → Outcome} {done : List String} {s s' : DAGScheduler}
  {jobs : Dict String JobEntry} {job : String}

/-! ## The statuses of the scheduler -/

/-- The statuses once the jobs in `done` have been collected. -/
structure Tracks (g : JobGraph) (outcome : String → Outcome) (done : List String) (s : DAGScheduler) :
    Prop where
  built : s.Built g.jobs
  keys : s.jobStatuses.keys = g.jobs.keys
  executed : ∀ d ∈ done, g.Executed outcome d
  succeeded : ∀ j, s.getJobStatus j = .succeeded ↔ j ∈ done ∧ (outcome j).Succeeds
  skipped : ∀ j, s.getJobStatus j = .skipped ↔
    ∃ d ∈ done, ¬ (outcome d).Succeeds ∧ TransGen (Needs g.jobs) j d

theorem Tracks.not_executed (h : Tracks g outcome done s) (hSkipped : s.getJobStatus job = .skipped) :
    ¬ g.Executed outcome job := by
  obtain ⟨d, -, hFails, hNeeds⟩ := (h.skipped job).mp hSkipped
  exact fun hExecuted => hFails (hExecuted.need_succeeds hNeeds)

theorem updateJobStatus_getJobStatus (s : DAGScheduler) (job other : String) (status : JobStatus) :
    (s.updateJobStatus job status).getJobStatus other =
      if other = job then status else s.getJobStatus other :=
  set_of s.jobStatuses job other status

theorem updateJobStatus_keys (h : s.jobStatuses.keys = g.jobs.keys) (hJob : job ∈ g.jobs.keys)
    (status : JobStatus) : (s.updateJobStatus job status).jobStatuses.keys = g.jobs.keys := by
  rw [DAGScheduler.updateJobStatus, Dict.keys_set, h, if_pos hJob]

theorem updateJobStatus_built (h : s.Built g.jobs) (job : String) (status : JobStatus) :
    (s.updateJobStatus job status).Built g.jobs :=
  ⟨h.graph, h.perm, h.ordered⟩

/-- All jobs of a new scheduler are queued. -/
theorem getJobStatus_of_queued {names : List String}
    (h : s.jobStatuses.entries = names.map fun job => (job, .queued)) (job : String) :
    s.getJobStatus job = .queued := by
  rw [DAGScheduler.getJobStatus, Dict.getD]
  cases hGet : s.jobStatuses.get? job with
  | none => rfl
  | some status =>
    rw [Dict.get?_eq_some_iff, h] at hGet
    obtain ⟨_, -, hEq⟩ := List.mem_map.mp hGet
    cases hEq
    rfl

theorem keys_of_queued {names : List String} (h : s.jobStatuses.entries = names.map fun job => (job, .queued)) :
    s.jobStatuses.keys = names := by
  rw [Dict.keys, h, List.map_map]
  exact List.map_id _

theorem Tracks.succeed (h : Tracks g outcome done s) (hJob : g.Executed outcome job)
    (hSucceeds : (outcome job).Succeeds) :
    Tracks g outcome (job :: done) (s.updateJobStatus job .succeeded) := by
  constructor
  · exact updateJobStatus_built h.built job .succeeded
  · exact updateJobStatus_keys h.keys hJob.mem_keys .succeeded
  · intro d hd
    rcases List.mem_cons.mp hd with rfl | hd
    · exact hJob
    · exact h.executed d hd
  · intro j
    rw [updateJobStatus_getJobStatus]
    by_cases hSame : j = job
    · simp [hSame, hSucceeds]
    · simp [hSame, h.succeeded j]
  · intro j
    have hOld : (∃ d ∈ job :: done, ¬ (outcome d).Succeeds ∧ TransGen (Needs g.jobs) j d) ↔
        ∃ d ∈ done, ¬ (outcome d).Succeeds ∧ TransGen (Needs g.jobs) j d := by
      simp [hSucceeds]
    rw [updateJobStatus_getJobStatus, hOld]
    by_cases hSame : j = job
    · subst hSame
      simp only [if_true, reduceCtorEq, false_iff]
      rintro ⟨d, -, hFails, hNeeds⟩
      exact hFails (hJob.need_succeeds hNeeds)
    · rw [if_neg hSame, h.skipped j]

/-- In an acyclic graph, the jobs that need a failed job are not done. -/
theorem Tracks.path_of_needs (h : Tracks g outcome done s) (hFails : ¬ (outcome job).Succeeds)
    {other : String} (hNeeds : TransGen (Needs g.jobs) other job) :
    TransGen (SkipEdge g.jobs (s.DoneBut job)) job other := by
  have hFresh : ∀ x, TransGen (Needs g.jobs) x job → ¬ s.DoneBut job x := by
    rintro x hx ⟨-, hSucceeded⟩
    obtain ⟨hDone, -⟩ := (h.succeeded x).mp hSucceeded
    exact hFails ((h.executed x hDone).need_succeeds hx)
  induction hNeeds using TransGen.head_induction_on with
  | single hEdge => exact .single ⟨hEdge, hFresh _ (.single hEdge)⟩
  | head hEdge hPath ih => exact .tail ih ⟨hEdge, hFresh _ (.head hEdge hPath)⟩

/-- Marking a failed job, whether or not its own status has been set before. -/
theorem Tracks.mark (h : Tracks g outcome done s) (hJob : g.Executed outcome job)
    (hFails : ¬ (outcome job).Succeeds) {s₀ : DAGScheduler} (hBuilt : s₀.Built g.jobs)
    (hKeys : s₀.jobStatuses.keys = g.jobs.keys)
    (hOthers : ∀ j, j ≠ job → s₀.getJobStatus j = s.getJobStatus j) :
    ∃ s', s₀.markJobFailed job = some s' ∧ Tracks g outcome (job :: done) s' := by
  obtain ⟨s', hMark, hMarked⟩ :=
    DAGScheduler.markJobFailed_marked hBuilt g.acyclic hKeys hJob.mem_keys
  have hDoneBut : s₀.DoneBut job = s.DoneBut job := by
    funext j
    by_cases hSame : j = job
    · simp [DAGScheduler.DoneBut, hSame]
    · simp [DAGScheduler.DoneBut, hSame, hOthers j hSame]
  have hReach : ∀ j, TransGen (SkipEdge g.jobs (s₀.DoneBut job)) job j ↔
      TransGen (Needs g.jobs) j job := by
    intro j
    rw [hDoneBut]
    exact ⟨needs_of_path, h.path_of_needs hFails⟩
  have hSelf : ∀ j, TransGen (Needs g.jobs) j job → j ≠ job := by
    rintro j hNeeds rfl
    exact g.acyclic j hNeeds
  refine ⟨s', hMark, hMarked.built, hMarked.keys, ?_, ?_, ?_⟩
  · intro d hd
    rcases List.mem_cons.mp hd with rfl | hd
    · exact hJob
    · exact h.executed d hd
  · intro j
    by_cases hSame : j = job
    · subst hSame
      simp [hMarked.failed, hFails]
    · by_cases hNeeds : TransGen (Needs g.jobs) j job
      · rw [hMarked.skipped j ((hReach j).mpr hNeeds)]
        simp only [reduceCtorEq, List.mem_cons, hSame, false_or, false_iff, not_and]
        exact fun hDone _ => hFails ((h.executed j hDone).need_succeeds hNeeds)
      · rw [hMarked.others j hSame (fun hPath => hNeeds ((hReach j).mp hPath)), hOthers j hSame,
          h.succeeded j]
        simp [hSame]
  · intro j
    by_cases hNeeds : TransGen (Needs g.jobs) j job
    · rw [hMarked.skipped j ((hReach j).mpr hNeeds)]
      exact ⟨fun _ => ⟨job, List.mem_cons_self, hFails, hNeeds⟩, fun _ => rfl⟩
    · have hOld : (∃ d ∈ job :: done, ¬ (outcome d).Succeeds ∧ TransGen (Needs g.jobs) j d) ↔
          ∃ d ∈ done, ¬ (outcome d).Succeeds ∧ TransGen (Needs g.jobs) j d := by
        simp [hNeeds]
      rw [hOld]
      by_cases hSame : j = job
      · subst hSame
        simp only [hMarked.failed, reduceCtorEq, false_iff]
        rintro ⟨d, -, hBad, hPath⟩
        exact hBad (hJob.need_succeeds hPath)
      · rw [hMarked.others j hSame (fun hPath => hNeeds ((hReach j).mp hPath)), hOthers j hSame,
          h.skipped j]

/-- The collected jobs are the executed ones below level `n`. -/
structure Covers (g : JobGraph) (outcome : String → Outcome) (done : List String) (n : ℕ) : Prop where
  below : ∀ d ∈ done, g.level d < n
  complete : ∀ j, g.Executed outcome j → g.level j < n → j ∈ done

/-- As long as no integrity failure has occurred, the submission test is exact. -/
theorem Tracks.skipped_iff (h : Tracks g outcome done s) {n : ℕ} (hCovers : Covers g outcome done n)
    (hNone : ∀ d ∈ done, outcome d ≠ .integrityFailure) (hJob : job ∈ g.jobs.keys)
    (hLevel : g.level job = n) : s.getJobStatus job = .skipped ↔ ¬ g.Executed outcome job := by
  constructor
  · exact h.not_executed
  · intro hNot
    have hBelow : ∀ other, g.level other < g.level job → g.Executed outcome other →
        outcome other ≠ .integrityFailure := fun other hLt hOther =>
      hNone other (hCovers.complete other hOther (hLevel ▸ hLt))
    obtain ⟨d, hNeeds, hExecuted, hFails⟩ := JobGraph.exists_failed_need hJob hNot hBelow
    have hDone := hCovers.complete d hExecuted (hLevel ▸ JobGraph.level_lt hNeeds)
    exact (h.skipped job).mpr ⟨d, hDone, hFails, hNeeds⟩

/-! ## The entries of the run -/

/-- The entries once the jobs in `done` have been collected: theirs are there, and every entry is the
expected one. -/
structure Shows (g : JobGraph) (outcome : String → Outcome) (done : List String)
    (jobs : Dict String JobEntry) : Prop where
  recorded : ∀ d ∈ done, d ∈ jobs.keys
  expected : ∀ j entry, jobs.get? j = some entry → g.Expects outcome j entry

theorem Shows.executed (h : Shows g outcome done jobs) (hJob : g.Executed outcome job)
    {entry : JobEntry} (hEntry : entry.Shows (outcome job)) :
    Shows g outcome (job :: done) (jobs.set job entry) := by
  constructor
  · intro d hd
    rw [Dict.mem_keys_set]
    rcases List.mem_cons.mp hd with rfl | hd
    · exact .inl rfl
    · exact .inr (h.recorded d hd)
  · intro j entry' hGet
    rw [Dict.get?_set] at hGet
    split at hGet
    · rename_i hSame
      cases hGet
      cases hSame
      exact ⟨hJob.mem_keys, fun _ => hEntry, fun hNot => absurd hJob hNot⟩
    · exact h.expected j entry' hGet

theorem Shows.skip (h : Shows g outcome done jobs) (hJob : job ∈ g.jobs.keys)
    (hNot : ¬ g.Executed outcome job) : Shows g outcome done (jobs.set job skippedEntry) := by
  constructor
  · exact fun d hd => Dict.mem_keys_set.mpr (.inr (h.recorded d hd))
  · intro j entry hGet
    rw [Dict.get?_set] at hGet
    split at hGet
    · rename_i hSame
      cases hGet
      cases hSame
      exact ⟨hJob, fun hExecuted => absurd hExecuted hNot, fun _ => rfl⟩
    · exact h.expected j entry hGet

theorem mem_keys_setSkipped {jobs : Dict String JobEntry} {job other : String} :
    other ∈ (setSkipped jobs job).keys ↔ other = job ∨ other ∈ jobs.keys := by
  unfold setSkipped
  split
  · rename_i hJob
    exact ⟨.inr, fun h => h.elim (fun hSame => hSame ▸ hJob) id⟩
  · exact Dict.mem_keys_set

theorem mem_keys_foldl_setSkipped {names : List String} {jobs : Dict String JobEntry} {other : String} :
    other ∈ (names.foldl setSkipped jobs).keys ↔ other ∈ names ∨ other ∈ jobs.keys := by
  induction names generalizing jobs with
  | nil => simp
  | cons name rest ih => rw [List.foldl_cons, ih, mem_keys_setSkipped, List.mem_cons, or_left_comm, or_assoc]

theorem foldl_setSkipped_get? (names : List String) (jobs : Dict String JobEntry) (job : String) :
    (names.foldl setSkipped jobs).get? job =
      if job ∈ names ∧ job ∉ jobs.keys then some skippedEntry else jobs.get? job := by
  induction names generalizing jobs with
  | nil => simp
  | cons name rest ih =>
    rw [List.foldl_cons, ih]
    by_cases hSame : job = name
    · subst hSame
      by_cases hKey : job ∈ jobs.keys
      · simp [setSkipped, hKey]
      · simp [setSkipped, hKey]
    · have hGet : (setSkipped jobs name).get? job = jobs.get? job := by
        unfold setSkipped
        split
        · rfl
        · rw [Dict.get?_set, if_neg hSame]
      simp [hSame, hGet, mem_keys_setSkipped]

theorem Shows.foldl_setSkipped {names : List String} (h : Shows g outcome done jobs)
    (hNames : ∀ name ∈ names, name ∈ g.jobs.keys ∧ ¬ g.Executed outcome name) :
    Shows g outcome done (names.foldl setSkipped jobs) := by
  induction names generalizing jobs with
  | nil => exact h
  | cons name rest ih =>
    refine ih ?_ fun other hOther => hNames other (List.mem_cons_of_mem name hOther)
    obtain ⟨hName, hNot⟩ := hNames name List.mem_cons_self
    unfold setSkipped
    split
    · exact h
    · exact h.skip hName hNot

theorem JobStatus.value_eq_skipped {status : JobStatus} : status.value = "skipped" ↔ status = .skipped := by
  cases status <;> decide

/-- The names that `copySkipped` goes through. -/
def skippedNames (s : DAGScheduler) : List String :=
  (s.statuses.filter fun entry => entry.2 = "skipped").map Prod.fst

theorem mem_skippedNames {j : String} :
    j ∈ skippedNames s ↔ j ∈ s.jobStatuses.keys ∧ s.getJobStatus j = .skipped := by
  have hMem : j ∈ skippedNames s ↔ (j, JobStatus.skipped) ∈ s.jobStatuses.entries := by
    simp [skippedNames, DAGScheduler.statuses, JobStatus.value_eq_skipped]
  rw [hMem, ← Dict.get?_eq_some_iff]
  constructor
  · intro hGet
    refine ⟨Dict.mem_keys_of_get? hGet, ?_⟩
    rw [DAGScheduler.getJobStatus, Dict.getD, hGet]
    rfl
  · rintro ⟨hKey, hStatus⟩
    obtain ⟨status, hGet⟩ := Dict.mem_keys_iff.mp hKey
    rw [DAGScheduler.getJobStatus, Dict.getD, hGet, Option.getD_some] at hStatus
    rw [hGet, hStatus]

theorem copySkipped_eq (s : DAGScheduler) (jobs : Dict String JobEntry) :
    copySkipped s jobs = (skippedNames s).foldl setSkipped jobs := by
  rw [copySkipped, skippedNames, List.foldl_map]

theorem Shows.copySkipped (h : Shows g outcome done jobs) (hTracks : Tracks g outcome done s) :
    Shows g outcome done (copySkipped s jobs) := by
  rw [copySkipped_eq]
  apply h.foldl_setSkipped
  intro name hName
  obtain ⟨hKey, hSkipped⟩ := mem_skippedNames.mp hName
  rw [hTracks.keys] at hKey
  exact ⟨hKey, hTracks.not_executed hSkipped⟩

theorem subset_keys_copySkipped (s : DAGScheduler) (jobs : Dict String JobEntry) :
    jobs.keys ⊆ (copySkipped s jobs).keys := by
  intro other hOther
  rw [copySkipped_eq]
  exact mem_keys_foldl_setSkipped.mpr (.inr hOther)

end Forge.Engine
