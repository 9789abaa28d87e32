import Forge.Engine.Runner
import Forge.Theory.Traversal

/-! # What ends a job

The loop over the steps goes on while the deadline has not been seen to pass and the step before was not killed
and reported no exit code but 0. How far it gets says what it returns.
-/
namespace Forge.Engine.DockerJobRunner
open Forge.Python Forge.Theory
set_option autoImplicit false

variable {self : DockerJobRunner} {memoryLimit : String} {deadline : ℚ} {exec : Nat → StepExec}

/-- The loop does not get past a step that is executed so. -/
structure Passes (deadline : ℚ) (exec : StepExec) : Prop where
  begun : exec.clock < deadline
  output : ∀ chunk ∈ exec.output, chunk.clock ≤ deadline
  alive : exec.oomKilled = false
  exitCode : exec.exitCode.getD 0 = 0

theorem readOutput_inTime (deadline : ℚ) (stepName : String) (output : List OutputChunk) :
    (readOutput deadline stepName output).2 = false ↔ ∀ chunk ∈ output, chunk.clock ≤ deadline := by
  induction output with
  | nil => exact iff_of_true rfl nofun
  | cons chunk rest ih =>
    rw [readOutput, List.forall_mem_cons]
    split
    · rename_i hLate
      exact iff_of_false Bool.noConfusion fun hAll => not_le.mpr hLate hAll.1
    · rename_i hInTime
      rw [and_iff_right (not_lt.mp hInTime)]
      exact ih

/-- What `run_job` takes for the success of a step that it has started. -/
theorem execStep_iff (deadline : ℚ) (stepName : String) (e : StepExec) :
    (execStep deadline stepName e).oomKilled = false ∧ (execStep deadline stepName e).exitCode = 0 ↔
      (∀ chunk ∈ e.output, chunk.clock ≤ deadline) ∧ e.oomKilled = false ∧ e.exitCode.getD 0 = 0 := by
  rw [← readOutput_inTime deadline stepName]
  cases hLate : (readOutput deadline stepName e.output).2 with
  | false => simp [execStep, hLate]
  | true => simp [execStep, hLate]

/-! ## The loop -/

section
variable {index : Nat} {step : StepDict} {rest : List StepDict}

theorem runSteps_of_passes (h : Passes deadline (exec index)) : ∃ logged,
    runSteps self memoryLimit deadline exec index (step :: rest) =
      (runSteps self memoryLimit deadline exec (index + 1) rest).after (step.startedAt index (exec index)) logged := by
  have hBegun : ¬ deadline - (exec index).clock ≤ 0 := not_le.mpr (sub_pos.mpr h.begun)
  obtain ⟨hAlive, hCode⟩ :=
    (execStep_iff deadline (step.nameAt index) (exec index)).mpr ⟨h.output, h.alive, h.exitCode⟩
  refine ⟨(execStep deadline (step.nameAt index) (exec index)).logged, ?_⟩
  simp only [runSteps, if_neg hBegun, hAlive, Bool.false_eq_true, if_false, hCode, ne_eq, not_true_eq_false]

/-- A step that the loop does not get past. -/
structure StopsAt (deadline : ℚ) (started : StartedStep) (run : StepsRun) : Prop where
  exitCode : run.exitCode ≠ 0
  status : run.status = .failed
  started : run.started = if started.clock < deadline then [started] else []

theorem runSteps_of_not_passes (h : ¬ Passes deadline (exec index)) :
    StopsAt deadline (step.startedAt index (exec index))
      (runSteps self memoryLimit deadline exec index (step :: rest)) := by
  by_cases hBegun : (exec index).clock < deadline
  · have hSoon : ¬ deadline - (exec index).clock ≤ 0 := not_le.mpr (sub_pos.mpr hBegun)
    have hFails : ¬((execStep deadline (step.nameAt index) (exec index)).oomKilled = false ∧
        (execStep deadline (step.nameAt index) (exec index)).exitCode = 0) := by
      rw [execStep_iff]
      exact fun hFine => h ⟨hBegun, hFine.1, hFine.2.1, hFine.2.2⟩
    simp only [runSteps, if_neg hSoon]
    split
    · exact ⟨(by decide : (137 : Int) ≠ 0), rfl, (if_pos hBegun).symm⟩
    · rename_i hAlive
      have hCode : (execStep deadline (step.nameAt index) (exec index)).exitCode ≠ 0 :=
        fun hZero => hFails ⟨by simpa using hAlive, hZero⟩
      rw [if_pos hCode]
      exact ⟨hCode, if_neg hCode, (if_pos hBegun).symm⟩
  · have hLate : deadline - (exec index).clock ≤ 0 := sub_nonpos.mpr (not_lt.mp hBegun)
    simp only [runSteps, if_pos hLate]
    exact ⟨(by decide : (124 : Int) ≠ 0), rfl, (if_neg hBegun).symm⟩

end

/-- The steps as they are started one after another. -/
def allStarted (exec : Nat → StepExec) (index : Nat) (steps : List StepDict) : List StartedStep :=
  (steps.zipIdx index).map fun step => step.1.startedAt step.2 (exec step.2)

/-- How far the loop gets. A step at or after the deadline is not started. -/
inductive Outcome (deadline : ℚ) (exec : Nat → StepExec) (index : Nat) (steps : List StepDict) (run : StepsRun) :
    Nat → Prop where
  | completed (exitCode : run.exitCode = 0) (status : run.status = .succeeded)
      (started : run.started = allStarted exec index steps) :
      Outcome deadline exec index steps run steps.length
  | stopped (n : Nat) (bound : n < steps.length) (stops : ¬ Passes deadline (exec (index + n)))
      (exitCode : run.exitCode ≠ 0) (status : run.status = .failed)
      (started : run.started = (allStarted exec index steps).take
        (if (exec (index + n)).clock < deadline then n + 1 else n)) :
      Outcome deadline exec index steps run n

theorem allStarted_cons (exec : Nat → StepExec) (index : Nat) (step : StepDict) (rest : List StepDict) :
    allStarted exec index (step :: rest) =
      step.startedAt index (exec index) :: allStarted exec (index + 1) rest := rfl

theorem runSteps_outcome (self : DockerJobRunner) (memoryLimit : String) (deadline : ℚ) (exec : Nat → StepExec)
    (index : Nat) (steps : List StepDict) : ∃ n,
    (∀ i < n, Passes deadline (exec (index + i))) ∧
      Outcome deadline exec index steps (runSteps self memoryLimit deadline exec index steps) n := by
  induction steps generalizing index with
  | nil => exact ⟨0, nofun, .completed rfl rfl rfl⟩
  | cons step rest ih =>
    by_cases hPasses : Passes deadline (exec index)
    · obtain ⟨logged, hRun⟩ : ∃ logged, runSteps self memoryLimit deadline exec index (step :: rest) = _ :=
        runSteps_of_passes hPasses
      obtain ⟨n, hAll, hOutcome⟩ := ih (index + 1)
      have hShift : ∀ i, index + (i + 1) = index + 1 + i := fun i => by omega
      refine ⟨n + 1, ?_, ?_⟩
      · rintro (_ | i) hi
        · exact hPasses
        · rw [hShift]
          exact hAll i (by omega)
      · rw [hRun]
        cases hOutcome with
        | completed hCode hStatus hStarted =>
          exact .completed hCode hStatus (by rw [StepsRun.after, hStarted, allStarted_cons])
        | stopped n hBound hStops hCode hStatus hStarted =>
          refine .stopped (n + 1) (by simpa using hBound) (by rwa [hShift]) hCode hStatus ?_
          rw [StepsRun.after, hStarted, allStarted_cons, hShift n]
          split
          · rfl
          · rfl
    · obtain ⟨hCode, hStatus, hStarted⟩ : StopsAt deadline (step.startedAt index (exec index))
          (runSteps self memoryLimit deadline exec index (step :: rest)) := runSteps_of_not_passes hPasses
      refine ⟨0, nofun, .stopped 0 (by simp) hPasses hCode hStatus ?_⟩
      rw [hStarted, allStarted_cons]
      split
      · rename_i hBegun
        exact (if_pos (show (exec (index + 0)).clock < deadline from hBegun) ▸ rfl)
      · rename_i hBegun
        exact (if_neg (show ¬ (exec (index + 0)).clock < deadline from hBegun) ▸ rfl)

theorem of_mem_take {steps : List StepDict} {n : Nat} {s : StartedStep}
    (h : s ∈ (allStarted exec 0 steps).take n) : s.index < n ∧ s.clock = (exec s.index).clock := by
  obtain ⟨i, hi, rfl⟩ := List.mem_take_iff_getElem.mp h
  have hIndex : ((allStarted exec 0 steps)[i]).index = i := by simp [allStarted, StepDict.startedAt]
  refine ⟨by omega, ?_⟩
  rw [hIndex]
  simp [allStarted, StepDict.startedAt]

theorem exists_mem_take (exec : Nat → StepExec) {steps : List StepDict} {n : Nat} (h : n < steps.length) :
    ∃ s ∈ (allStarted exec 0 steps).take (n + 1), s.index = n := by
  have hLength : n < (allStarted exec 0 steps).length := by simpa [allStarted] using h
  refine ⟨(allStarted exec 0 steps)[n], ?_, by simp [allStarted, StepDict.startedAt]⟩
  exact List.mem_take_iff_getElem.mpr ⟨n, by omega, rfl⟩

/-! ## Jobs -/

/-- The container of the job is created and started. -/
def Starts (docker : Docker) (job : JobDict) : Prop :=
  ∃ memoryBytes, parseMemory job.memoryLimit = .ok memoryBytes ∧
    docker.container (job.runtime.getD "alpine:3.18") job.cpuLimit memoryBytes = .ok ()

theorem runJob_of_starts {docker : Docker} {job : JobDict} (h : Starts docker job) (jobName : String) :
    self.runJob docker jobName job = .ok (self.jobRun docker jobName
      (self.runSteps job.memoryLimit (self.deadline docker) docker.exec 0 (job.steps.getD []))) := by
  obtain ⟨memoryBytes, hMemory, hContainer⟩ := h
  rw [runJob, hMemory]
  simp only [hContainer]

/-- The status that `execute_job` takes over is the one that the exit code stands for. -/
theorem runJob_status {docker : Docker} {jobName : String} {job : JobDict} {run : JobRun}
    (h : self.runJob docker jobName job = .ok run) :
    run.result.status = Engine.JobResult.status ⟨run.result.exitCode⟩ := by
  unfold runJob at h
  split at h
  · cases h
  · split at h
    · cases h
      rfl
    · cases h
    · cases h
      obtain ⟨n, -, hOutcome⟩ := runSteps_outcome self job.memoryLimit (self.deadline docker) docker.exec 0
        (job.steps.getD [])
      cases hOutcome with
      | completed hCode hStatus hStarted => exact hStatus.trans (if_pos hCode).symm
      | stopped n hBound hStops hCode hStatus hStarted => exact hStatus.trans (if_neg hCode).symm

/-! ## Exit codes -/

structure StepExec.Succeeds (e : StepExec) : Prop where
  exitCode : e.exitCode = some 0
  alive : e.oomKilled = false

/-- The job succeeds with its steps, and with exit code 0, and no step follows one without success. -/
structure FollowsExitCodes (exec : Nat → StepExec) (steps : List StepDict) (run : JobRun) : Prop where
  succeeded : run.result.status = .succeeded ↔
    run.started = allStarted exec 0 steps ∧ ∀ i < steps.length, (exec i).Succeeds
  stops : ∀ started ∈ run.started, ∀ i < started.index, (exec i).Succeeds
  exitCode : run.result.exitCode = 0 ↔ run.result.status = .succeeded

/-- The first step without success has an exit code or has been killed for its memory. -/
def FailureReported (exec : Nat → StepExec) (steps : List StepDict) : Prop :=
  ∀ i < steps.length, (∀ j < i, (exec j).Succeeds) → ¬ (exec i).Succeeds →
    (exec i).exitCode ≠ none ∨ (exec i).oomKilled = true

/-- No step before this one ends the job. -/
def Reached (exec : Nat → StepExec) (i : Nat) : Prop :=
  ∀ j < i, (exec j).oomKilled = false ∧ (exec j).exitCode.getD 0 = 0

/-- No reading of the clock is late. -/
def InTime (deadline : ℚ) (exec : Nat → StepExec) (steps : List StepDict) : Prop :=
  ∀ i < steps.length, Reached exec i →
    (exec i).clock < deadline ∧ ∀ chunk ∈ (exec i).output, chunk.clock ≤ deadline

theorem reached_of_passes {i : Nat} (h : ∀ j < i, Passes deadline (exec j)) : Reached exec i :=
  fun j hj => ⟨(h j hj).alive, (h j hj).exitCode⟩

theorem StepExec.Succeeds.passes {steps : List StepDict} (hInTime : InTime deadline exec steps) {i : Nat}
    (hi : i < steps.length) (hBefore : ∀ j < i, Passes deadline (exec j)) (h : (exec i).Succeeds) :
    Passes deadline (exec i) := by
  obtain ⟨hBegun, hOutput⟩ := hInTime i hi (reached_of_passes hBefore)
  exact ⟨hBegun, hOutput, h.alive, by rw [h.exitCode]; rfl⟩

theorem failureReported_iff {steps : List StepDict} {run : StepsRun} {n : Nat}
    (hInTime : InTime deadline exec steps) (hPasses : ∀ i < n, Passes deadline (exec i))
    (h : Outcome deadline exec 0 steps run n) :
    FailureReported exec steps ↔ ∀ i < n, (exec i).Succeeds := by
  have hBound : n ≤ steps.length := by
    cases h with
    | completed hCode hStatus hStarted => exact le_rfl
    | stopped n hBound hStops hCode hStatus hStarted => exact hBound.le
  constructor
  · intro hReported i hi
    induction i using Nat.strong_induction_on with
    | _ i ih =>
      by_contra hFails
      have hPass := hPasses i hi
      rcases hReported i (by omega) (fun j hj => ih j hj (by omega)) hFails with hCode | hKilled
      · obtain ⟨code, hCode⟩ := Option.ne_none_iff_exists'.mp hCode
        have hZero := hPass.exitCode
        rw [hCode, Option.getD_some] at hZero
        exact hFails ⟨hZero ▸ hCode, hPass.alive⟩
      · rw [hPass.alive] at hKilled
        cases hKilled
  · intro hAll i hi hBefore hFails
    cases h with
    | completed hCode hStatus hStarted => exact absurd (hAll i hi) hFails
    | stopped n hBound hStops hCode hStatus hStarted =>
      rw [Nat.zero_add] at hStops
      have hSame : i = n := by
        rcases Nat.lt_trichotomy i n with hLess | hSame | hMore
        · exact absurd (hAll i hLess) hFails
        · exact hSame
        · exact absurd ((hBefore n hMore).passes hInTime hBound hPasses) hStops
      subst hSame
      by_contra hNone
      rw [not_or, not_not, Bool.not_eq_true] at hNone
      obtain ⟨hBegun, hOutput⟩ := hInTime i hi (reached_of_passes hPasses)
      exact hStops ⟨hBegun, hOutput, hNone.2, by rw [hNone.1]; rfl⟩

theorem followsExitCodes_iff {steps : List StepDict} {run : JobRun} {n : Nat}
    (hInTime : InTime deadline exec steps) (hPasses : ∀ i < n, Passes deadline (exec i))
    (h : Outcome deadline exec 0 steps ⟨run.result.exitCode, run.result.status, run.logged, run.started⟩ n) :
    FollowsExitCodes exec steps run ↔ ∀ i < n, (exec i).Succeeds := by
  cases h with
  | completed hCode hStatus hStarted =>
    constructor
    · exact fun hFollows => (hFollows.succeeded.mp hStatus).2
    · intro hAll
      refine ⟨iff_of_true hStatus ⟨hStarted, hAll⟩, fun started hMem i hi => ?_, iff_of_true hCode hStatus⟩
      have hStarted : run.started = (allStarted exec 0 steps).take steps.length :=
        hStarted.trans (List.take_of_length_le (by simp [allStarted])).symm
      have hIndex := (of_mem_take (hStarted ▸ hMem)).1
      exact hAll i (by omega)
  | stopped n hBound hStops hCode hStatus hStarted =>
    rw [Nat.zero_add] at hStops hStarted
    rw [if_pos (hInTime n hBound (reached_of_passes hPasses)).1] at hStarted
    have hStarted : run.started = _ := hStarted
    have hFails : run.result.status ≠ .succeeded := by
      rw [show run.result.status = .failed from hStatus]
      decide
    constructor
    · intro hFollows i hi
      obtain ⟨started, hMem, hIndex⟩ := exists_mem_take exec hBound
      exact hFollows.stops started (hStarted ▸ hMem) i (by omega)
    · intro hAll
      refine ⟨iff_of_false hFails ?_, fun started hMem i hi => ?_, iff_of_false hCode hFails⟩
      · rintro ⟨-, hSteps⟩
        exact hStops ((hSteps n hBound).passes hInTime hBound hPasses)
      · have hIndex := (of_mem_take (hStarted ▸ hMem)).1
        exact hAll i (by omega)

/-- Without a timeout, the result follows the exit codes if and only if the first step without success, if there is
one, has an exit code or has been killed. -/
theorem runJob_followsExitCodes_iff {docker : Docker} {job : JobDict} (hStarts : Starts docker job)
    (hInTime : InTime (self.deadline docker) docker.exec (job.steps.getD [])) (jobName : String) :
    ∃ run, self.runJob docker jobName job = .ok run ∧
      (FollowsExitCodes docker.exec (job.steps.getD []) run ↔ FailureReported docker.exec (job.steps.getD [])) := by
  obtain ⟨n, hPasses, hOutcome⟩ := runSteps_outcome self job.memoryLimit (self.deadline docker) docker.exec 0
    (job.steps.getD [])
  simp only [Nat.zero_add] at hPasses
  refine ⟨_, runJob_of_starts hStarts jobName, ?_⟩
  rw [failureReported_iff hInTime hPasses hOutcome]
  exact followsExitCodes_iff hInTime hPasses hOutcome

def exampleRunner : DockerJobRunner := { storageRoot := "/data/", maxJobDurationSec := 60 }

def exampleDocker (exec : Nat → StepExec) : Docker :=
  { startTime := 100, container := fun _ _ _ => .ok (), exec, endTime := 170 }

def exampleJob (steps : Nat) : JobDict := { steps := some (List.replicate steps { run := some "make" }) }

theorem starts_example (exec : Nat → StepExec) (steps : Nat) : Starts (exampleDocker exec) (exampleJob steps) := by
  obtain ⟨memoryBytes, hMemory⟩ := exists_of_isOk (show (parseMemory "512Mi").isOk = true by decide +kernel)
  exact ⟨memoryBytes, hMemory, rfl⟩

theorem deadline_example (exec : Nat → StepExec) : exampleRunner.deadline (exampleDocker exec) = 160 := by
  norm_num [deadline, exampleRunner, exampleDocker]

/-- The second step is killed for its memory before it has an exit code. -/
def killedExec (i : Nat) : StepExec :=
  if i = 1 then { clock := 101, completedAt := 104, exitCode := none, oomKilled := true }
  else { clock := 101, completedAt := 104, exitCode := some 0 }

theorem runJob_followsExitCodes_killed : ∃ run,
    exampleRunner.runJob (exampleDocker killedExec) "build" (exampleJob 3) = .ok run ∧
      FollowsExitCodes killedExec (List.replicate 3 { run := some "make" }) run := by
  have hClock : ∀ i, (killedExec i).clock = 101 ∧ (killedExec i).output = [] := by
    intro i
    unfold killedExec
    split
    · exact ⟨rfl, rfl⟩
    · exact ⟨rfl, rfl⟩
  have hInTime : InTime (exampleRunner.deadline (exampleDocker killedExec)) killedExec
      (List.replicate 3 { run := some "make" }) := by
    intro i _ _
    rw [deadline_example, (hClock i).1, (hClock i).2]
    exact ⟨by norm_num, nofun⟩
  obtain ⟨run, hRun, hIff⟩ := runJob_followsExitCodes_iff (starts_example killedExec 3) hInTime "build"
  refine ⟨run, hRun, hIff.mpr fun i _ _ hFails => ?_⟩
  change (killedExec i).exitCode ≠ none ∨ (killedExec i).oomKilled = true
  unfold killedExec at hFails ⊢
  split
  · exact .inr rfl
  · exact .inl nofun

/-- The only step has no exit code. -/
def unrecordedExec (_ : Nat) : StepExec := { clock := 101, completedAt := 104, exitCode := none }

theorem runJob_not_followsExitCodes : ∃ run,
    exampleRunner.runJob (exampleDocker unrecordedExec) "build" (exampleJob 1) = .ok run ∧
      InTime (exampleRunner.deadline (exampleDocker unrecordedExec)) unrecordedExec
        (List.replicate 1 { run := some "make" }) ∧
      run.result.status = .succeeded ∧
      ¬ FollowsExitCodes unrecordedExec (List.replicate 1 { run := some "make" }) run := by
  have hSucceeds : (exampleRunner.runSteps (exampleJob 1).memoryLimit 160 unrecordedExec 0
      ((exampleJob 1).steps.getD [])).status = .succeeded := by decide +kernel
  rw [← deadline_example unrecordedExec] at hSucceeds
  refine ⟨_, runJob_of_starts (starts_example unrecordedExec 1) "build", ?_, hSucceeds, fun hFollows => ?_⟩
  · intro i _ _
    rw [deadline_example]
    exact ⟨by norm_num [unrecordedExec], nofun⟩
  · have hStep := ((hFollows.succeeded.mp hSucceeds).2 0 (by simp)).exitCode
    cases hStep

/-! ## The deadline -/

/-- No step starts after the deadline, and the job succeeds only if its last step completes by then. -/
structure KeepsDeadline (deadline : ℚ) (exec : Nat → StepExec) (steps : List StepDict) (run : JobRun) : Prop where
  started : ∀ started ∈ run.started, started.clock ≤ deadline
  completed : run.result.status = .succeeded → ∀ last, last + 1 = steps.length → (exec last).completedAt ≤ deadline

/-- A last step that completes too late is one of those in a job with some step that stops it. -/
def LateEndSeen (deadline : ℚ) (exec : Nat → StepExec) (steps : List StepDict) : Prop :=
  ∀ last, last + 1 = steps.length → deadline < (exec last).completedAt →
    ∃ i < steps.length, deadline ≤ (exec i).clock ∨ (∃ chunk ∈ (exec i).output, deadline < chunk.clock) ∨
      (exec i).oomKilled = true ∨ (exec i).exitCode.getD 0 ≠ 0

theorem not_passes_iff {e : StepExec} : ¬ Passes deadline e ↔ deadline ≤ e.clock ∨
    (∃ chunk ∈ e.output, deadline < chunk.clock) ∨ e.oomKilled = true ∨ e.exitCode.getD 0 ≠ 0 := by
  constructor
  · intro hNot
    by_contra hNone
    simp only [not_or, not_exists, not_and, not_le, not_lt, Bool.not_eq_true, not_not] at hNone
    exact hNot ⟨hNone.1, hNone.2.1, hNone.2.2.1, hNone.2.2.2⟩
  · rintro (hLate | ⟨chunk, hChunk, hLate⟩ | hKilled | hCode) hPasses
    · exact not_lt.mpr hLate hPasses.begun
    · exact not_lt.mpr (hPasses.output chunk hChunk) hLate
    · rw [hPasses.alive] at hKilled
      cases hKilled
    · exact hCode hPasses.exitCode

theorem started_before_deadline {steps : List StepDict} {run : StepsRun} {n : Nat}
    (hPasses : ∀ i < n, Passes deadline (exec i)) (h : Outcome deadline exec 0 steps run n) :
    ∀ started ∈ run.started, started.clock < deadline := by
  intro started hMem
  cases h with
  | completed hCode hStatus hStarted =>
    rw [hStarted, ← List.take_of_length_le (l := allStarted exec 0 steps) (i := steps.length)
      (by simp [allStarted])] at hMem
    obtain ⟨hIndex, hClock⟩ := of_mem_take hMem
    rw [hClock]
    exact (hPasses _ hIndex).begun
  | stopped n hBound hStops hCode hStatus hStarted =>
    rw [hStarted, Nat.zero_add] at hMem
    obtain ⟨hIndex, hClock⟩ := of_mem_take hMem
    rw [hClock]
    split at hIndex
    · rename_i hBegun
      rcases Nat.lt_succ_iff_lt_or_eq.mp hIndex with hLess | hSame
      · exact (hPasses _ hLess).begun
      · rw [hSame]
        exact hBegun
    · exact (hPasses _ hIndex).begun

/-- No step starts late, and a job whose last step completes late succeeds if and only if nothing else stops it. -/
theorem runJob_keepsDeadline_iff {docker : Docker} {job : JobDict} (hStarts : Starts docker job) (jobName : String) :
    ∃ run, self.runJob docker jobName job = .ok run ∧
      (KeepsDeadline (self.deadline docker) docker.exec (job.steps.getD []) run ↔
        LateEndSeen (self.deadline docker) docker.exec (job.steps.getD [])) := by
  obtain ⟨n, hPasses, hOutcome⟩ := runSteps_outcome self job.memoryLimit (self.deadline docker) docker.exec 0
    (job.steps.getD [])
  simp only [Nat.zero_add] at hPasses
  have hStarted := started_before_deadline hPasses hOutcome
  refine ⟨_, runJob_of_starts hStarts jobName, ?_⟩
  cases hOutcome with
  | completed hCode hStatus _ =>
    constructor
    · exact fun hKeeps last hLast hLate => absurd hLate (not_lt.mpr (hKeeps.completed hStatus last hLast))
    · intro hSeen
      refine ⟨fun started hMem => (hStarted started hMem).le, fun _ last hLast => ?_⟩
      by_contra hLate
      obtain ⟨i, hi, hStops⟩ := hSeen last hLast (not_le.mp hLate)
      exact not_passes_iff.mpr hStops (hPasses i hi)
  | stopped n hBound hStops hCode hStatus _ =>
    rw [Nat.zero_add] at hStops
    refine iff_of_true ⟨fun started hMem => (hStarted started hMem).le, fun hSucceeded => ?_⟩ ?_
    · cases hStatus.symm.trans hSucceeded
    · exact fun last hLast hLate => ⟨n, hBound, not_passes_iff.mp hStops⟩

/-- The only step prints something after the deadline. -/
def lateChunkExec (_ : Nat) : StepExec :=
  { clock := 101, output := [{ clock := 165, stdout := some [0x61] }], completedAt := 166, exitCode := some 0 }

theorem runJob_keepsDeadline_lateChunk : ∃ run,
    exampleRunner.runJob (exampleDocker lateChunkExec) "build" (exampleJob 1) = .ok run ∧
      KeepsDeadline (exampleRunner.deadline (exampleDocker lateChunkExec)) lateChunkExec
        (List.replicate 1 { run := some "make" }) run := by
  obtain ⟨run, hRun, hIff⟩ := runJob_keepsDeadline_iff (starts_example lateChunkExec 1) "build"
  refine ⟨run, hRun, hIff.mpr fun last hLast hLate => ⟨0, Nat.one_pos, .inr (.inl ?_)⟩⟩
  rw [deadline_example]
  exact ⟨_, List.mem_singleton_self _, by norm_num⟩

/-- The only step prints nothing and completes after the deadline. -/
def silentExec (_ : Nat) : StepExec := { clock := 101, completedAt := 165, exitCode := some 0 }

theorem runJob_not_keepsDeadline : ∃ run,
    exampleRunner.runJob (exampleDocker silentExec) "build" (exampleJob 1) = .ok run ∧
      run.result.status = .succeeded ∧
      ¬ KeepsDeadline (exampleRunner.deadline (exampleDocker silentExec)) silentExec
        (List.replicate 1 { run := some "make" }) run := by
  have hSucceeds : (exampleRunner.runSteps (exampleJob 1).memoryLimit 160 silentExec 0
      ((exampleJob 1).steps.getD [])).status = .succeeded := by decide +kernel
  rw [← deadline_example silentExec] at hSucceeds
  refine ⟨_, runJob_of_starts (starts_example silentExec 1) "build", hSucceeds, fun hKeeps => ?_⟩
  have hEnd := hKeeps.completed hSucceeds 0 (by simp)
  rw [deadline_example] at hEnd
  norm_num [silentExec] at hEnd

end Forge.Engine.DockerJobRunner
