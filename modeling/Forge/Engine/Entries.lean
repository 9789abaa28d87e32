import Forge.Engine.Pool
import Forge.Engine.RunResult

/-! # Where the entries of a run come from

An entry tells of a skipped job, of a worker that has returned, or of one whose download did not match. So an
integrity failure, wherever it shows, goes back to such a download.
-/
namespace Forge.Engine
open Forge.Python Forge.Registry Forge.Theory
set_option autoImplicit false

variable {host : Host} {registry : RegistryClient} {pipeline : PipelineConfig} {s t : Execution} {e : Event}

/-! ## Entries -/

/-- The entry of a job whose worker has returned. -/
def resultEntry (result : JobResult) (published : List PublishedArtifact) : JobEntry :=
  { status := .job result.status, exitCode := some result.exitCode, artifacts := some published }

/-- What an entry can be that a step adds. -/
inductive NewEntry (s : Execution) (job : String) : JobEntry → Prop where
  | skipped : NewEntry s job skippedEntry
  | returned (result : JobResult) (published : List PublishedArtifact)
      (hWorker : s.futures.get? job = some (.returned result published)) :
      NewEntry s job (resultEntry result published)
  | mismatched (name version expected actual : String)
      (hWorker : s.futures.get? job = some (.raised (.integrityError name version expected actual))) :
      NewEntry s job integrityEntry

theorem entry_of_foldl_setSkipped {names : List String} {jobs : Dict String JobEntry} {job : String}
    {entry : JobEntry} (h : (names.foldl setSkipped jobs).get? job = some entry) :
    jobs.get? job = some entry ∨ entry = skippedEntry := by
  rw [foldl_setSkipped_get?] at h
  split at h
  · exact .inr (Option.some.inj h).symm
  · exact .inl h

theorem entry_of_set {jobs : Dict String JobEntry} {other job : String} {entry new : JobEntry}
    (h : (jobs.set other new).get? job = some entry) : jobs.get? job = some entry ∨ job = other ∧ entry = new := by
  rw [Dict.get?_set] at h
  split at h
  · rename_i hSame
    exact .inr ⟨hSame, (Option.some.inj h).symm⟩
  · exact .inl h

theorem collectResult_entries {scheduler : DAGScheduler} {rest : List (List String)} {integrityFailed : Bool}
    {other job : String} {result : JobResult} {published : List PublishedArtifact} {entry : JobEntry}
    (h : (s.collectResult scheduler rest integrityFailed other result published).run.jobs.get? job = some entry) :
    s.run.jobs.get? job = some entry ∨ entry = skippedEntry ∨
      job = other ∧ entry = resultEntry result published := by
  simp only [Execution.collectResult] at h
  split at h
  · exact (entry_of_set h).imp_right .inr
  · simp only [copySkipped_eq] at h
    cases entry_of_foldl_setSkipped h with
    | inl hSet => exact (entry_of_set hSet).imp_right .inr
    | inr hSkipped => exact .inr (.inl hSkipped)

theorem collectIntegrityError_entries {scheduler : DAGScheduler} {rest : List (List String)} {other job : String}
    {entry : JobEntry}
    (h : (s.collectIntegrityError scheduler rest other).run.jobs.get? job = some entry) :
    s.run.jobs.get? job = some entry ∨ job = other ∧ entry = integrityEntry := by
  simp only [Execution.collectIntegrityError] at h
  split at h
  · exact entry_of_set h
  · exact entry_of_set h

theorem Moves.entry {job : String} {entry : JobEntry} (h : Moves host registry pipeline s e t)
    (hGet : t.run.jobs.get? job = some entry) : s.run.jobs.get? job = some entry ∨ NewEntry s job entry := by
  cases h with
  | unresolved t hMain hNot hStops => exact .inl (by cases hStops <;> exact hGet)
  | unplanned t hMain hNot hStops => exact .inl (by cases hStops <;> exact hGet)
  | skippedLevel scheduler level rest hMain =>
    rcases entry_of_foldl_setSkipped hGet with hOld | rfl
    · exact .inl hOld
    · exact .inr .skipped
  | submittedSkipped scheduler name todo rest hMain hSkipped =>
    rcases entry_of_set hGet with hOld | ⟨-, rfl⟩
    · exact .inl hOld
    · exact .inr .skipped
  | collectedResult scheduler rest integrityFailed name result published hMain hFresh hWorker =>
    rcases collectResult_entries hGet with hOld | rfl | ⟨rfl, rfl⟩
    · exact .inl hOld
    · exact .inr .skipped
    · exact .inr (.returned result published hWorker)
  | collectedIntegrityError scheduler rest integrityFailed name name' version expected actual hMain hFresh
      hWorker =>
    rcases collectIntegrityError_entries hGet with hOld | ⟨rfl, rfl⟩
    · exact .inl hOld
    · exact .inr (.mismatched name' version expected actual hWorker)
  | _ => exact .inl hGet

/-! ## Integrity failures -/

def Main.integrityFailed : Main → Bool
  | .levels _ _ integrityFailed => integrityFailed
  | .collecting _ _ integrityFailed => integrityFailed
  | _ => false

def Worker.isMismatch : Worker → Bool
  | .raised (.integrityError _ _ _ _) => true
  | _ => false

/-- Whatever shows an integrity failure gives a reason for it. -/
structure Blames (Reason : Prop) (s : Execution) : Prop where
  worker : ∀ job worker, s.futures.get? job = some worker → worker.isMismatch = true → Reason
  entry : ∀ job entry, s.run.jobs.get? job = some entry → entry.status = .integrityFailure → Reason
  flag : s.main.integrityFailed = true → Reason
  status : s.run.status = .integrityFailure → Reason

/-- A download of the event does not match, for a worker that waits for it. -/
def Mismatches (s : Execution) (e : Event) : Prop :=
  ∃ job dep rest content, s.futures.get? job = some (.pulling (dep :: rest)) ∧
    e = .work job (.pull 200 content) ∧ sha256 content ≠ dep.2.sha256

section
variable {Reason : Prop}

theorem blames_initial : Blames Reason .initial where
  worker _ _ h := by cases h
  entry _ _ h := by cases h
  flag h := by cases h
  status h := by cases h

theorem Blames.mono {Reason' : Prop} (h : Blames Reason s) (hReason : Reason → Reason') : Blames Reason' s where
  worker job worker hWorker hMismatch := hReason (h.worker job worker hWorker hMismatch)
  entry job entry hGet hStatus := hReason (h.entry job entry hGet hStatus)
  flag hFlag := hReason (h.flag hFlag)
  status hStatus := hReason (h.status hStatus)

theorem Blames.worker_moves (h : Blames Reason s) (hMove : Moves host registry pipeline s e t)
    (hPull : Mismatches s e → Reason) : ∀ job worker, t.futures.get? job = some worker →
      worker.isMismatch = true → Reason := by
  apply hMove.workers (P := fun _ worker => worker.isMismatch = true → Reason) h.worker
  · intro job hJob hQueued
    cases hQueued
  · intro job worker action worker' hGet hEvent hWorks hMismatch
    cases hWorks with
    | mismatched dep rest content hSha => exact hPull ⟨job, dep, rest, content, hGet, hEvent, hSha⟩
    | _ => cases hMismatch

theorem Blames.entry_moves (h : Blames Reason s) (hMove : Moves host registry pipeline s e t) (job : String)
    (entry : JobEntry) (hGet : t.run.jobs.get? job = some entry) (hStatus : entry.status = .integrityFailure) :
    Reason := by
  cases hMove.entry hGet with
  | inl hOld => exact h.entry job entry hOld hStatus
  | inr hNew =>
    cases hNew with
    | skipped => cases hStatus
    | returned result published hWorker => cases hStatus
    | mismatched name version expected actual hWorker => exact h.worker job _ hWorker rfl

theorem collectResult_flag {scheduler : DAGScheduler} {rest : List (List String)} {integrityFailed : Bool}
    {job : String} {result : JobResult} {published : List PublishedArtifact}
    (h : (s.collectResult scheduler rest integrityFailed job result published).main.integrityFailed = true) :
    integrityFailed = true := by
  simp only [Execution.collectResult] at h
  split at h
  · cases h
  · exact h

theorem Blames.flag_moves (h : Blames Reason s) (hMove : Moves host registry pipeline s e t)
    (hFlag : t.main.integrityFailed = true) : Reason := by
  cases hMove with
  | unresolved t hMain hNot hStops => cases hStops <;> cases hFlag
  | unplanned t hMain hNot hStops => cases hStops <;> cases hFlag
  | skippedLevel scheduler level rest hMain => exact h.flag (by rw [hMain]; rfl)
  | worked job worker worker' action hWorker hPool hWorks => exact h.flag hFlag
  | collectedResult scheduler rest integrityFailed job result published hMain hFresh hWorker =>
    exact h.flag (by rw [hMain]; exact collectResult_flag hFlag)
  | collectedIntegrityError scheduler rest integrityFailed job name version expected actual hMain hFresh
      hWorker => exact h.worker job _ hWorker rfl
  | closedPool scheduler rest integrityFailed hMain hAll => exact h.flag (by rw [hMain]; exact hFlag)
  | _ => cases hFlag

theorem Blames.status_moves (h : Blames Reason s) (hMove : Moves host registry pipeline s e t)
    (hStatus : t.run.status = .integrityFailure) : Reason := by
  cases hMove with
  | unresolved t hMain hNot hStops =>
    cases hStops with
    | ends status error hEnds =>
      cases hStatus
      simp at hEnds
    | aborts error => exact h.status hStatus
  | unplanned t hMain hNot hStops =>
    cases hStops with
    | ends status error hEnds =>
      cases hStatus
      simp at hEnds
    | aborts error => exact h.status hStatus
  | planned scheduler plan hMain hPlans => cases hStatus
  | collectedResult scheduler rest integrityFailed job result published hMain hFresh hWorker =>
    obtain ⟨jobs, hRun⟩ := collectResult_run (s := { s with collected := job :: s.collected }) scheduler rest
      integrityFailed job result published
    rw [hRun] at hStatus
    exact h.status hStatus
  | collectedIntegrityError scheduler rest integrityFailed job name version expected actual hMain hFresh
      hWorker => exact h.worker job _ hWorker rfl
  | aborted error hMain hIdle => cases hStatus
  | finished scheduler integrityFailed now hMain =>
    -- the final status is computed from the flag and the entries
    rcases finalStatus_eq_integrityFailure.mp hStatus with hFlag | hEntry
    · exact h.flag (by rw [hMain]; exact hFlag)
    · obtain ⟨job, entry, hGet, hIntegrity⟩ := mem_statuses_iff.mp hEntry
      exact h.entry job entry hGet hIntegrity
  | _ => exact h.status hStatus

theorem Moves.blames (hMove : Moves host registry pipeline s e t) (h : Blames Reason s)
    (hPull : Mismatches s e → Reason) : Blames Reason t where
  worker := h.worker_moves hMove hPull
  entry := h.entry_moves hMove
  flag := h.flag_moves hMove
  status := h.status_moves hMove

end

/-! ## Published artifacts -/

/-- A request on its way was found by the walk of its worker. -/
theorem Moves.posting {job : String} {artifact : PipelineArtifact} {data : Bytes} {rest : List PipelineArtifact}
    {published : List PublishedArtifact} (h : Moves host registry pipeline s e t)
    (hGet : t.futures.get? job = some (.posting artifact data rest published)) :
    s.futures.get? job = some (.posting artifact data rest published) ∨
      s.futures.get? job = some (.walking (artifact :: rest) published) := by
  have hWorkers := h.workers (P := fun job worker => worker = .posting artifact data rest published →
    s.futures.get? job = some worker ∨ s.futures.get? job = some (.walking (artifact :: rest) published))
  refine hWorkers ?_ ?_ ?_ job _ hGet rfl
  · exact fun job worker hOld _ => .inl hOld
  · intro job hJob hQueued
    cases hQueued
  · rintro job worker action worker' hOld hEvent hWorks rfl
    cases hWorks with
    | found artifact rest published data hHold => exact .inr hOld

/-- The artifacts that a worker has published, and one that the registry has just taken, are all `Ok`. -/
def Worker.Vouched (Ok : PublishedArtifact → Prop) : Worker → Prop
  | .walking _ published => ∀ pub ∈ published, Ok pub
  | .posting _ _ _ published => ∀ pub ∈ published, Ok pub
  | .answered artifact data statusCode _ _ published =>
    (Created statusCode → Ok ⟨artifact.name, artifact.version, sha256 data⟩) ∧ ∀ pub ∈ published, Ok pub
  | .returned _ published => ∀ pub ∈ published, Ok pub
  | _ => True

structure Vouches (Ok : PublishedArtifact → Prop) (s : Execution) : Prop where
  worker : ∀ job worker, s.futures.get? job = some worker → worker.Vouched Ok
  entry : ∀ job entry published, s.run.jobs.get? job = some entry → entry.artifacts = some published →
    ∀ pub ∈ published, Ok pub

/-- The registry takes the artifact that a worker has sent. -/
def Takes (s : Execution) (e : Event) (job : String) (artifact : PipelineArtifact) (data : Bytes) : Prop :=
  ∃ rest published statusCode text, s.futures.get? job = some (.posting artifact data rest published) ∧
    e = .work job (.handle statusCode text) ∧ Created statusCode

theorem Moves.takes (h : Moves host registry pipeline s e t) : t.history.accepted = s.history.accepted ∨
    ∃ job artifact data, Takes s e job artifact data ∧
      t.history.accepted = s.history.accepted ++ [artifact.coordinate] := by
  cases h.poolStep with
  | worked job worker worker' action hWorker hWorks =>
    cases hWorks with
    | handled artifact data rest published statusCode text =>
      simp only [Execution.worked, History.record]
      split
      · rename_i hCreated
        exact .inr ⟨job, artifact, data, ⟨rest, published, statusCode, text, hWorker, rfl, hCreated⟩, rfl⟩
      · exact .inl rfl
    | raised worker message hActive => exact .inl (by simp only [Execution.worked, History.record])
    | _ => exact .inl rfl
  | main e t hHistory hPool hEvent => exact .inl (congrArg History.accepted hHistory)

section
variable {Ok Ok' : PublishedArtifact → Prop}

theorem vouches_initial : Vouches Ok .initial where
  worker _ _ h := by cases h
  entry _ _ _ h := by cases h

theorem Worker.Vouched.mono {worker : Worker} (h : worker.Vouched Ok) (hOk : ∀ pub, Ok pub → Ok' pub) :
    worker.Vouched Ok' := by
  cases worker with
  | walking artifacts published => exact fun pub hPub => hOk pub (h pub hPub)
  | posting artifact data artifacts published => exact fun pub hPub => hOk pub (h pub hPub)
  | answered artifact data statusCode text artifacts published =>
    exact ⟨fun hCreated => hOk _ (h.1 hCreated), fun pub hPub => hOk pub (h.2 pub hPub)⟩
  | returned result published => exact fun pub hPub => hOk pub (h pub hPub)
  | _ => trivial

theorem Vouches.mono (h : Vouches Ok s) (hOk : ∀ pub, Ok pub → Ok' pub) : Vouches Ok' s where
  worker job worker hWorker := (h.worker job worker hWorker).mono hOk
  entry job entry published hGet hArtifacts pub hPub := hOk pub (h.entry job entry published hGet hArtifacts pub hPub)

theorem Works.vouched {lockfile : Option Lockfile} {job : String} {worker worker' : Worker} {action : Action}
    (h : Works host pipeline lockfile job worker action worker') (hOld : worker.Vouched Ok)
    (hTakes : ∀ artifact data rest published statusCode text, worker = .posting artifact data rest published →
      action = .handle statusCode text → Created statusCode → Ok ⟨artifact.name, artifact.version, sha256 data⟩) :
    worker'.Vouched Ok := by
  cases h with
  | succeeded => exact List.forall_mem_nil _
  | failed exitCode hExit => exact List.forall_mem_nil _
  | absent artifact rest published => exact hOld
  | found artifact rest published data hHold => exact hOld
  | handled artifact data rest published statusCode text =>
    exact ⟨hTakes artifact data rest published statusCode text rfl rfl, hOld⟩
  | created artifact data statusCode text rest published hStatus =>
    exact List.forall_mem_append.mpr ⟨hOld.2, List.forall_mem_singleton.mpr (hOld.1 hStatus)⟩
  | finished published => exact hOld
  | _ => trivial

theorem Moves.vouches (hMove : Moves host registry pipeline s e t) (h : Vouches Ok s)
    (hTakes : ∀ job artifact data, Takes s e job artifact data →
      Ok ⟨artifact.name, artifact.version, sha256 data⟩) : Vouches Ok t where
  worker := by
    apply hMove.workers h.worker
    · exact fun job hJob => trivial
    · intro job worker action worker' hWorker hEvent hWorks
      apply hWorks.vouched (h.worker job worker hWorker)
      rintro artifact data rest published statusCode text rfl rfl hCreated
      exact hTakes job artifact data ⟨rest, published, statusCode, text, hWorker, hEvent, hCreated⟩
  entry job entry published hGet hArtifacts := by
    cases hMove.entry hGet with
    | inl hOld => exact h.entry job entry published hOld hArtifacts
    | inr hNew =>
      cases hNew with
      | skipped => cases hArtifacts
      | returned result published hWorker =>
        cases hArtifacts
        exact h.worker job _ hWorker
      | mismatched name version expected actual hWorker => cases hArtifacts

theorem Moves.accepted_of_takes {job : String} {artifact : PipelineArtifact} {data : Bytes}
    (h : Moves host registry pipeline s e t) (hTakes : Takes s e job artifact data) :
    t.history.accepted = s.history.accepted ++ [artifact.coordinate] ∧
      ∃ statusCode text rest published,
        t.futures.get? job = some (.answered artifact data statusCode text rest published) := by
  obtain ⟨rest, published, statusCode, text, hWorker, rfl, hCreated⟩ := hTakes
  cases h with
  | worked job worker worker' action hHere hPool hWorks =>
    cases hHere.symm.trans hWorker
    cases hWorks with
    | handled artifact data rest published statusCode text =>
      refine ⟨?_, statusCode, text, rest, published, by simp [Execution.worked]⟩
      simp only [Execution.worked, History.record, if_pos hCreated]

/-- What a job reports as published, the registry has taken. -/
theorem vouches_accepted {events : List Event} (hRun : Run (Execution.Step host registry pipeline) .initial events s) :
    Vouches (fun pub => (pub.name, pub.version) ∈ s.history.accepted) s := by
  have hKeeps := hRun.invariant fun s e t
      (h : Vouches (fun pub => (pub.name, pub.version) ∈ s.history.accepted) s) hStep => by
    have hMove : Moves host registry pipeline s e t := hStep.moves
    have hGrows : s.history.accepted ⊆ t.history.accepted := by
      rcases hMove.takes with hSame | ⟨job, artifact, data, -, hMore⟩
      · exact hSame ▸ List.Subset.refl _
      · exact hMore ▸ List.subset_append_left _ _
    refine hMove.vouches (h.mono fun pub hPub => hGrows hPub) ?_
    intro job artifact data hTakes
    rw [(hMove.accepted_of_takes hTakes).1]
    exact List.mem_append_right _ List.mem_cons_self
  exact hKeeps vouches_initial

end

end Forge.Engine
