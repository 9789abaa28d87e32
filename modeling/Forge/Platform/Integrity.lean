import Forge.Engine.Cooperation
import Forge.Platform.Publication
import Forge.Registry.BlobIntegrity

/-! # What an integrity failure means

The engine checks what it downloads against a hash that comes from the same registry. So a check fails only when a
blob is not what its row says, and a store whose blobs are all complete makes no run fail in this way.
-/
namespace Forge.Platform
open Forge.Python Forge.Registry Forge.Engine Forge.Theory
set_option autoImplicit false

variable {json : JsonModule} {elsewhere : RegistryClient} {e : SystemEvent} {p q : System} {r : Nat}
  {run : SubmittedRun}

/-! ## Downloads -/

theorem toPull_run {host : Host} {registry : RegistryClient} {pipeline : PipelineConfig}
    {events : List Engine.Event} {s : Execution} (hRun : Run (Execution.Step host registry pipeline) .initial events s) (job : String)
    (worker : Worker) (hWorker : s.futures.get? job = some worker) : worker.toPull ⊆ depsOf s.run.lockfile := by
  have hKeeps := hRun.invariant fun s e t (h : (s.main = .queued → s = .initial) ∧
      ∀ job worker, s.futures.get? job = some worker → worker.toPull ⊆ depsOf s.run.lockfile) hStep => by
    have hMove : Engine.Moves host registry pipeline s e t := hStep.moves
    refine ⟨initial_of_queued h.1 hMove, ?_⟩
    rcases hMove.lockfile with hSame | ⟨hMain, -⟩
    · rw [hSame]
      apply hMove.workers h.2 (fun job _ => List.nil_subset _)
      exact fun job worker action worker' hWorker _ hWorks => hWorks.toPull (h.2 job worker hWorker)
    · have hNone : ∀ job worker, s.futures.get? job ≠ some worker := by
        rw [h.1 hMain]
        exact fun job worker hGet => by cases hGet
      apply hMove.workers (P := fun _ worker => worker.toPull ⊆ depsOf t.run.lockfile)
      · exact fun job worker hWorker => absurd hWorker (hNone job worker)
      · exact fun job _ => List.nil_subset _
      · exact fun job worker action worker' hWorker _ _ => absurd hWorker (hNone job worker)
  exact (hKeeps ⟨fun _ => rfl, fun job worker hGet => by cases hGet⟩).2 job worker hWorker

/-- A locked package whose blob in the store is not what its row says, unless the package cannot be asked for. -/
def Torn (store : Store) (lockfile : Lockfile) : Prop :=
  ∃ pkg ∈ lockfile.packages, isCoordinate pkg.name pkg.version = true →
    ∃ row ∈ store.artifacts.rows, row.coordinate = (pkg.name, pkg.version) ∧ row.sha256 = pkg.sha256 ∧
      ∃ content, getBlob store.blobs row.sha256 = some content ∧ sha256 content ≠ row.sha256

theorem Torn.grows {store later : Store} {lockfile : Lockfile} (h : Torn store lockfile)
    (hGrows : store.Grows later) : Torn later lockfile := by
  obtain ⟨pkg, hPkg, hTorn⟩ := h
  refine ⟨pkg, hPkg, fun hCoordinate => ?_⟩
  obtain ⟨row, hRow, hLocked, hSha, content, hBlob, hContent⟩ := hTorn hCoordinate
  exact ⟨row, hGrows.rows row hRow, hLocked, hSha, content, hGrows.blobs _ _ hBlob, hContent⟩

/-- The answer 200 to a download is the blob of the row. -/
theorem pulled_ok {store : Store} {name version : String}
    (hStatus : (pulled (downloadArtifact json store name version)).1 = 200) : ∃ row ∈ store.artifacts.rows,
      row.coordinate = (name, version) ∧
      getBlob store.blobs row.sha256 = some (pulled (downloadArtifact json store name version)).2 := by
  unfold downloadArtifact at hStatus ⊢
  split at hStatus
  · cases hStatus
  · cases hStatus
  · rename_i artifact hGet
    obtain ⟨row, deps, hSelect, -, rfl⟩ := getArtifact_some hGet
    obtain ⟨hRow, hCoordinate⟩ := ArtifactTable.select_eq_some_iff.mp hSelect
    refine ⟨row, hRow, hCoordinate, ?_⟩
    simp only [Row.toArtifact] at hStatus ⊢
    cases hBlob : getBlob store.blobs row.sha256 with
    | none =>
      rw [hBlob] at hStatus
      cases hStatus
    | some data =>
      simp only [hBlob] at hStatus ⊢
      split at hStatus
      · cases hStatus
      · rename_i hNonempty
        rw [if_neg hNonempty]
        rfl

/-- What a mismatch comes from. -/
theorem Reached.torn (hJson : json.Readable) (h : Reached json elsewhere p) (hRun : p.runs[r]? = some run)
    {event : Engine.Event} {registry : RegistryClient} (hAsks : Asks json elsewhere p run event registry)
    (hMismatch : Mismatches run.execution event) :
    ∃ lockfile, run.execution.run.lockfile = some lockfile ∧ Torn p.store lockfile := by
  obtain ⟨job, dep, rest, content, hWorker, hEvent, hSha⟩ := hMismatch
  obtain ⟨before, events, -, hAlone⟩ := h.traced hRun
  have hDep : dep ∈ depsOf run.execution.run.lockfile :=
    toPull_run hAlone job _ hWorker (List.mem_cons_self : dep ∈ dep :: rest)
  cases hLockfile : run.execution.run.lockfile with
  | none =>
    rw [hLockfile] at hDep
    cases hDep
  | some lockfile =>
    rw [hLockfile] at hDep
    obtain ⟨pkg, hPkg, hPair⟩ := List.mem_map.mp (Dict.mem_of_mem_ofList hDep)
    refine ⟨lockfile, rfl, pkg, hPkg, fun hCoordinate => ?_⟩
    obtain ⟨hName, -⟩ := Bool.and_eq_true_iff.mp hCoordinate
    obtain ⟨row, hRow, hLocked, hRowSha⟩ := ((h.traced hRun).locks hJson h.sound hLockfile hPkg hName).2
    subst hPair
    refine ⟨row, hRow, hLocked, hRowSha, content, ?_, ?_⟩
    · cases hAsks with
      | resolves listed delay => cases hEvent
      | pulls job' dep' rest' hWorker' hCoordinate' =>
        simp only [Engine.Event.work.injEq, Action.pull.injEq] at hEvent
        obtain ⟨rfl, hStatus, hContent⟩ := hEvent
        cases hWorker.symm.trans hWorker'
        obtain ⟨row', hRow', hLocked', hBlob⟩ := pulled_ok hStatus
        have hSame := List.inj_on_of_nodup_map p.store.artifacts.unique hRow hRow' (hLocked.trans hLocked'.symm)
        rw [hSame, hBlob, hContent]
      | unauthorized job text exc hAuth => cases hEvent
      | replied job text i request answer hPost hAt => cases hEvent
      | alone event hLocal =>
        subst hEvent
        simp [SubmittedRun.isLocal, hWorker, hCoordinate] at hLocal
    · rw [hRowSha]
      exact hSha

/-! ## Runs -/

theorem lockfile_kept {host : Host} {registry : RegistryClient} {pipeline : PipelineConfig} {s t : Execution}
    {event : Engine.Event} (hOld : s.main = .queued → s = .initial) {lockfile : Lockfile}
    (h : s.run.lockfile = some lockfile) (hMove : Engine.Moves host registry pipeline s event t) :
    t.run.lockfile = some lockfile := by
  rcases hMove.lockfile with hSame | ⟨hMain, -⟩
  · rw [hSame, h]
  · rw [hOld hMain] at h
    cases h

/-- The lockfile of the run has a torn package. -/
def TornFor (p : System) (execution : Execution) : Prop :=
  ∃ lockfile, execution.run.lockfile = some lockfile ∧ Torn p.store lockfile

theorem Reached.blames (hJson : json.Readable) (h : Reached json elsewhere p) (hAt : p.runs[r]? = some run) :
    Blames (TornFor p run.execution) run.execution := by
  refine h.runs (P := fun p run => Blames (TornFor p run.execution) run.execution) ?_ ?_ ?_ ?_ hAt
  · intro p e q run hReached hMove hBlames
    refine hBlames.mono ?_
    rintro ⟨lockfile, hLockfile, hTorn⟩
    exact ⟨lockfile, hLockfile, hTorn.grows (hMove.grows hReached.sound)⟩
  · exact fun p host pipeline submitter credentials hReached hAuth => blames_initial
  · intro p r run event registry execution hReached hRun hBlames hAsks hStep
    obtain ⟨before, events, -, hAlone⟩ := hReached.traced hRun
    have hKeeps : TornFor p run.execution → TornFor p execution := by
      rintro ⟨lockfile, hLockfile, hTorn⟩
      exact ⟨lockfile, lockfile_kept (eq_initial_of_queued hAlone) hLockfile hStep.moves, hTorn⟩
    exact hStep.moves.blames (hBlames.mono hKeeps) fun hMismatch => hKeeps (hReached.torn hJson hRun hAsks hMismatch)
  · exact fun p run job i hBlames => hBlames

/-- The run, or a job of it, has ended with an integrity failure. -/
def SubmittedRun.IntegrityFails (run : SubmittedRun) : Prop :=
  run.execution.run.status = .integrityFailure ∨
    ∃ job entry, run.execution.run.jobs.get? job = some entry ∧ entry.status = .integrityFailure

theorem Reached.torn_of_fails (hJson : json.Readable) (h : Reached json elsewhere p) (hAt : p.runs[r]? = some run)
    (hFails : run.IntegrityFails) : TornFor p run.execution := by
  have hBlames := h.blames hJson hAt
  rcases hFails with hStatus | ⟨job, entry, hEntry, hStatus⟩
  · exact hBlames.status hStatus
  · exact hBlames.entry job entry hEntry hStatus

/-! ## Complete blobs -/

/-- No publish reuses a file that a kill has left incomplete. -/
def System.findsComplete (p : System) : SystemEvent → Bool
  | .registry (.serve event) => p.service.server.findsComplete event
  | _ => true

theorem backed_next {s t : Service} {event : ServiceEvent} (h : s.server.Backed IntactBlob)
    (hMove : ServiceMoves json s event t)
    (hComplete : ∀ served, event = .serve served → s.server.findsComplete served = true) :
    t.server.Backed IntactBlob := by
  cases hMove with
  | admitted credentials publisher form hAuth =>
    have hArrive : Registry.Moves json s.server (.arrive (form.request publisher)) _ := .arrive _
    exact h.moves (fun _ => rfl) (fun _ _ _ _ _ hEvent => by cases hEvent) hArrive
  | served served server hEvent hStep =>
    exact h.moves (fun _ => rfl) (finds_of_findsComplete (hComplete served rfl)) (Server.Step.moves hStep)
  | _ => exact h

theorem SystemMoves.backed (hMove : SystemMoves json elsewhere p e q) (h : p.service.server.Backed IntactBlob)
    (hComplete : p.findsComplete e = true) : q.service.server.Backed IntactBlob := by
  cases hMove with
  | registered event service hStep =>
    apply backed_next h hStep.moves
    rintro served rfl
    exact hComplete
  | posted r run job text publisher artifact data rest published service hRun hPosts hWorker hAuth hStep hService =>
    exact backed_next h hStep.moves fun served hEvent => by cases hEvent
  | _ => exact h

theorem not_torn {lockfile : Lockfile} (h : p.service.server.Backed IntactBlob)
    (hNames : ∀ pkg ∈ lockfile.packages, isCoordinate pkg.name pkg.version = true) : ¬ Torn p.store lockfile := by
  rintro ⟨pkg, hPkg, hTorn⟩
  obtain ⟨row, hRow, -, -, content, hBlob, hContent⟩ := hTorn (hNames pkg hPkg)
  obtain ⟨content', hBlob', hIntact⟩ := h.rows row hRow
  cases hBlob.symm.trans hBlob'
  exact hContent hIntact

/-- An integrity failure means that a locked package has a blob in the registry that is not what its row says, or
that it cannot be asked for. So there is none where all names are path segments, as long as no publish finds an
incomplete file under its hash. -/
theorem integrity_failures {events : List SystemEvent} (hJson : json.Readable)
    (hRun : Run (System.Step json elsewhere) .initial events p) (hAt : p.runs[r]? = some run) :
    (run.IntegrityFails → ∃ lockfile, run.execution.run.lockfile = some lockfile ∧ Torn p.store lockfile) ∧
    (Run (restrict (System.Step json elsewhere) fun p e => p.findsComplete e = true) .initial events p →
      (∀ lockfile, run.execution.run.lockfile = some lockfile → ∀ pkg ∈ lockfile.packages, Segment pkg.name) →
      ¬ run.IntegrityFails) := by
  have hReached : Reached json elsewhere p := ⟨events, hRun⟩
  refine ⟨hReached.torn_of_fails hJson hAt, fun hComplete hNames hFails => ?_⟩
  have hBacked := hComplete.invariant (fun p e q h hStep => hStep.1.moves.backed h hStep.2)
    (Server.backed_initial IntactBlob)
  obtain ⟨lockfile, hLockfile, hTorn⟩ := hReached.torn_of_fails hJson hAt hFails
  refine not_torn hBacked (fun pkg hPkg => ?_) hTorn
  have hName := hNames lockfile hLockfile pkg hPkg
  have hVersion := ((hReached.traced hAt).locks hJson hReached.sound hLockfile hPkg hName).1
  exact Bool.and_eq_true_iff.mpr ⟨hName, hVersion⟩

/-- The registry is killed when one of two bytes is written, the publish is sent again, and a run depends on it. -/
def tornRun : List SystemEvent :=
  [.registry (.createToken "dev" "9b20"), .registry (.publish "9b20" (formOf "1.0.0" [1, 2])),
    .registry (.serve (.advance 0 "t0")), .registry (.serve (.advance 0 "t0")), .registry (.serve (.advance 0 "t0")),
    .registry (.serve (.killWriting 0 1)), .registry (.publish "9b20" (formOf "1.0.0" [1, 2]))] ++
  List.replicate 6 (.registry (.serve (.advance 1 "t1"))) ++
  [.submit "9b20" exampleHost servicePipeline, .resolve 0 (fun _ => 20) (fun _ _ => 0), .work 0 .plan,
    .work 0 .enterLevel, .work 0 .submit, .work 0 .submit, .work 0 (.work "test" .start), .pull 0 "test",
    .work 0 (.collect "test"), .work 0 .closePool, .work 0 (.finish "2024-05-01")]

theorem integrity_failures_torn : ∃ (p : System) (run : SubmittedRun) (lockfile : Lockfile),
    p.runs[0]? = some run ∧ run.IntegrityFails ∧ run.execution.run.lockfile = some lockfile ∧
    Torn p.store lockfile := by
  have hSome : ((execute (System.next emptyDepsJson emptyRegistry) .initial tornRun).any fun p =>
      decide (p.runs.map (fun run => run.execution.run.status) = [.integrityFailure])) = true := by decide +kernel
  obtain ⟨p, hExecute, hEnd⟩ := (Option.any_eq_true _ _).mp hSome
  have hStatus : (p.runs.map fun run => run.execution.run.status)[0]? = some .integrityFailure := by
    rw [of_decide_eq_true hEnd]
    rfl
  rw [List.getElem?_map] at hStatus
  obtain ⟨run, hAt, hFails⟩ := Option.map_eq_some_iff.mp hStatus
  have hRun := run_stepsOf_iff.mpr hExecute
  obtain ⟨lockfile, hLockfile, hTorn⟩ := (integrity_failures emptyDepsJson_readable hRun hAt).1 (.inl hFails)
  exact ⟨p, run, lockfile, hAt, .inl hFails, hLockfile, hTorn⟩

end Forge.Platform
