import Forge.Engine.Execution
import Forge.Engine.ExecutionPlan
import Forge.Theory.Depth

/-! # What a run should leave behind

The entries of a run as a function of the job graph and of what each job does when it is executed. No
order of events occurs here. The levels of the execution plan are the depths in the graph.
-/
namespace Forge.Engine
open Forge.Python Forge.Theory Relation
set_option autoImplicit false

/-- The jobs of a pipeline whose needs name jobs and have no cycles. -/
structure JobGraph where
  jobs : JobsConfig
  known : NeedsKnown jobs
  acyclic : Acyclic (Needs jobs)

namespace JobGraph

theorem wellFounded (g : JobGraph) : WellFounded fun dep job => dep ∈ needsOf g.jobs job :=
  g.acyclic.wellFounded g.known

def level (g : JobGraph) (job : String) : ℕ := depth g.wellFounded job

variable {g : JobGraph}

theorem level_lt_of_needs {job dep : String} (h : Needs g.jobs job dep) : g.level dep < g.level job :=
  depth_lt g.wellFounded h

theorem level_lt {job dep : String} (h : TransGen (Needs g.jobs) job dep) : g.level dep < g.level job :=
  transGen_rank_lt (fun _ _ hNeeds => level_lt_of_needs hNeeds) h

theorem mem_keys_of_needs {job dep : String} (h : TransGen (Needs g.jobs) job dep) :
    dep ∈ g.jobs.keys := by
  cases h with
  | single hNeeds => exact g.known _ _ hNeeds
  | tail _ hNeeds => exact g.known _ _ hNeeds

end JobGraph

/-! ## The levels of the plan -/

section
variable {g : JobGraph} {plan pre rest : List (List String)} {level : List String}

theorem Levels.mem_flatten_iff (h : Levels g.jobs [] plan) (hSplit : plan = pre ++ rest) (job : String) :
    job ∈ pre.flatten ↔ job ∈ g.jobs.keys ∧ g.level job < pre.length := by
  induction pre using List.reverseRecOn generalizing rest job with
  | nil => simp
  | append_singleton pre level ih =>
    have hLevel : plan = pre ++ level :: rest := by simpa using hSplit
    have hPre := ih hLevel
    rw [List.flatten_append, List.mem_append, hPre job, List.length_append]
    simp only [List.flatten_cons, List.flatten_nil, List.append_nil, List.length_singleton]
    constructor
    · rintro (⟨hJob, hLt⟩ | hMem)
      · exact ⟨hJob, by omega⟩
      · have hJob : job ∈ g.jobs.keys := by
          rw [← h.perm.mem_iff, hLevel]
          simp [hMem]
        have hLe : g.level job ≤ pre.length := by
          apply depth_le
          intro dep hDep
          have hBelow := h.below pre level rest hLevel job hMem dep hDep
          rw [List.nil_append, hPre] at hBelow
          exact hBelow.2
        exact ⟨hJob, by omega⟩
    · rintro ⟨hJob, hLt⟩
      by_cases hBefore : g.level job < pre.length
      · exact .inl ⟨hJob, hBefore⟩
      · right
        apply h.greedy pre level rest hLevel job hJob
        · rw [List.nil_append, hPre]
          exact fun hMem => hBefore hMem.2
        · intro dep hNeeds
          rw [List.nil_append, hPre]
          have hDep := JobGraph.level_lt_of_needs hNeeds
          exact ⟨g.known job dep hNeeds, by omega⟩

theorem Levels.mem_level_iff (h : Levels g.jobs [] plan) (hSplit : plan = pre ++ level :: rest)
    (job : String) : job ∈ level ↔ job ∈ g.jobs.keys ∧ g.level job = pre.length := by
  have hBefore := h.mem_flatten_iff hSplit job
  have hUpTo : plan = (pre ++ [level]) ++ rest := by simpa using hSplit
  have hThrough := h.mem_flatten_iff hUpTo job
  simp only [List.flatten_append, List.flatten_cons, List.flatten_nil, List.append_nil,
    List.mem_append, List.length_append, List.length_singleton] at hThrough
  have hNodup : (pre.flatten ++ level).Nodup := by
    have hAll := h.perm.nodup_iff.mpr g.jobs.nodup
    rw [hSplit, List.nil_append, List.flatten_append, List.flatten_cons, ← List.append_assoc] at hAll
    exact hAll.of_append_left
  constructor
  · intro hMem
    have hNotBefore : job ∉ pre.flatten := fun hOld => List.disjoint_of_nodup_append hNodup hOld hMem
    obtain ⟨hJob, hLt⟩ := hThrough.mp (.inr hMem)
    have hGe : ¬ g.level job < pre.length := fun hLt => hNotBefore (hBefore.mpr ⟨hJob, hLt⟩)
    exact ⟨hJob, by omega⟩
  · rintro ⟨hJob, hEq⟩
    rcases hThrough.mpr ⟨hJob, by omega⟩ with hOld | hMem
    · have hLt := (hBefore.mp hOld).2
      omega
    · exact hMem

theorem Levels.level_lt_length (h : Levels g.jobs [] plan) {job : String} (hJob : job ∈ g.jobs.keys) :
    g.level job < plan.length := by
  have hMem : job ∈ plan.flatten := h.perm.mem_iff.mpr hJob
  exact ((h.mem_flatten_iff (List.append_nil plan).symm job).mp hMem).2

end

/-! ## Outcomes and entries -/

/-- What a job does when it is executed. -/
inductive Outcome where
  | finished (exitCode : Int)
  | integrityFailure
  deriving DecidableEq

def Outcome.status : Outcome → EntryStatus
  | .finished exitCode => .job (JobResult.mk exitCode).status
  | .integrityFailure => .integrityFailure

def Outcome.exitCode : Outcome → Int
  | .finished exitCode => exitCode
  | .integrityFailure => 1

def Outcome.Succeeds (outcome : Outcome) : Prop := outcome = .finished 0

/-- Whether the entry of an executed job shows what the job did. -/
structure JobEntry.Shows (entry : JobEntry) (outcome : Outcome) : Prop where
  status : entry.status = outcome.status
  exitCode : entry.exitCode = some outcome.exitCode

variable {g : JobGraph} {outcome : String → Outcome} {job : String}

def JobGraph.Executed (g : JobGraph) (outcome : String → Outcome) (job : String) : Prop :=
  job ∈ g.jobs.keys ∧
    (∀ dep, TransGen (Needs g.jobs) job dep → g.Executed outcome dep ∧ (outcome dep).Succeeds) ∧
    ∀ other, g.level other < g.level job → g.Executed outcome other →
      outcome other ≠ .integrityFailure
termination_by g.level job
decreasing_by
  · exact JobGraph.level_lt ‹_›
  · assumption

/-- The entry that the graph and the outcomes determine. -/
structure JobGraph.Expects (g : JobGraph) (outcome : String → Outcome) (job : String)
    (entry : JobEntry) : Prop where
  mem_keys : job ∈ g.jobs.keys
  executed : g.Executed outcome job → entry.Shows (outcome job)
  skipped : ¬ g.Executed outcome job → entry = skippedEntry

theorem JobGraph.executed_iff : g.Executed outcome job ↔ job ∈ g.jobs.keys ∧
    (∀ dep, TransGen (Needs g.jobs) job dep → g.Executed outcome dep ∧ (outcome dep).Succeeds) ∧
    ∀ other, g.level other < g.level job → g.Executed outcome other →
      outcome other ≠ .integrityFailure := by
  conv_lhs => unfold JobGraph.Executed

theorem JobGraph.Executed.mem_keys (h : g.Executed outcome job) : job ∈ g.jobs.keys :=
  (JobGraph.executed_iff.mp h).1

theorem JobGraph.Executed.need_succeeds (h : g.Executed outcome job) {dep : String}
    (hNeeds : TransGen (Needs g.jobs) job dep) : (outcome dep).Succeeds :=
  ((JobGraph.executed_iff.mp h).2.1 dep hNeeds).2

theorem JobGraph.Executed.no_integrityFailure (h : g.Executed outcome job) {other : String}
    (hLevel : g.level other < g.level job) (hOther : g.Executed outcome other) :
    outcome other ≠ .integrityFailure :=
  (JobGraph.executed_iff.mp h).2.2 other hLevel hOther

/-- Below the first level with an integrity failure, a job is not executed only for a failed need. -/
theorem JobGraph.exists_failed_need (hJob : job ∈ g.jobs.keys) (hNot : ¬ g.Executed outcome job)
    (hNone : ∀ other, g.level other < g.level job → g.Executed outcome other →
      outcome other ≠ .integrityFailure) :
    ∃ dep, TransGen (Needs g.jobs) job dep ∧ g.Executed outcome dep ∧ ¬ (outcome dep).Succeeds := by
  generalize hLevel : g.level job = n
  induction n using Nat.strong_induction_on generalizing job with
  | _ n ih =>
    subst hLevel
    by_contra hMissing
    apply hNot
    rw [JobGraph.executed_iff]
    refine ⟨hJob, ?_, hNone⟩
    intro dep hNeeds
    have hBelow := JobGraph.level_lt hNeeds
    have hDep : g.Executed outcome dep := by
      by_contra hDep
      obtain ⟨deeper, hPath, hExecuted, hFails⟩ := ih (g.level dep) hBelow
        (JobGraph.mem_keys_of_needs hNeeds) hDep
        (fun other hOther => hNone other (hOther.trans hBelow)) rfl
      exact hMissing ⟨deeper, hNeeds.trans hPath, hExecuted, hFails⟩
    refine ⟨hDep, ?_⟩
    by_contra hFails
    exact hMissing ⟨dep, hNeeds, hDep, hFails⟩

end Forge.Engine
