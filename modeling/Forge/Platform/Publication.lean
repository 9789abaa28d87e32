import Forge.Platform.Delivery

/-! # What the platform has published

Every artifact that a job reports, and every package that a run has locked, is a row of the registry. So all of
these records agree, over the runs and over time, and no coordinate is published twice.
-/
namespace Forge.Platform
open Forge.Python Forge.Registry Forge.Engine Forge.Theory
set_option autoImplicit false

variable {json : JsonModule} {elsewhere : RegistryClient} {e : SystemEvent} {p q : System} {r r' i : Nat}
  {run run' : SubmittedRun} {job job' : String}

/-! ## Answers -/

theorem Reached.inv (hJson : json.Readable) (h : Reached json elsewhere p) : p.service.server.Inv json := by
  obtain ⟨shown, hServer⟩ := h.sound.server
  exact run_inv hJson hServer

theorem created_of_answered {request : Request} {answer : Answer Published} (hInv : p.service.server.Inv json)
    (hAt : p.service.server.At i request (.answered answer)) (hCreated : Created (answer.statusCode 201)) :
    p.service.server.Responds i request 201 := by
  have hSound := hInv.sound i request _ hAt
  refine ⟨answer, hAt, ?_⟩
  cases answer with
  | ok body => rfl
  | raised exc =>
    rw [Answer.statusCode, Created] at hCreated
    rcases hSound with ⟨hStatus, -⟩ | ⟨hStatus, -⟩ <;> omega
  | internalServerError => exact hSound.elim

/-- What a run takes for published, the registry has answered with success. -/
theorem Reached.taken (hJson : json.Readable) (h : Reached json elsewhere p) (hRun : p.runs[r]? = some run)
    {event : Engine.Event} {registry : RegistryClient} (hAsks : Asks json elsewhere p run event registry)
    {artifact : PipelineArtifact} {data : Bytes} (hTakes : Takes run.execution event job artifact data)
    (hCoordinate : isCoordinate artifact.name artifact.version = true) :
    ∃ i, Sends p r job i ∧ p.service.server.Responds i (run.requestOf json artifact data) 201 := by
  obtain ⟨rest, published, statusCode, text, hWorker, hEvent, hCreated⟩ := hTakes
  cases hAsks with
  | resolves listed delay => cases hEvent
  | pulls job dep rest hPulling hDep => cases hEvent
  | unauthorized job text exc hAuth => cases (h.delivery.token r run hRun).symm.trans hAuth
  | replied job text i request answer hPost hAt =>
    cases hEvent
    obtain ⟨artifact', data', rest', published', handler, hWorker', hAt'⟩ := h.delivery.sent r run job i hRun hPost
    cases hWorker.symm.trans hWorker'
    cases hAt.symm.trans hAt'
    exact ⟨i, ⟨run, hRun, hPost⟩, created_of_answered (h.inv hJson) hAt hCreated⟩
  | alone event hLocal =>
    subst hEvent
    simp [SubmittedRun.isLocal, hWorker, hCoordinate] at hLocal

/-! ## Reported artifacts -/

/-- The artifact is a row of the publisher's, if the registry could be asked for it at all. -/
def Credits (store : Store) (publisher : String) (pub : PublishedArtifact) : Prop :=
  isCoordinate pub.name pub.version = true → ∃ row ∈ store.artifacts.rows,
    row.coordinate = (pub.name, pub.version) ∧ row.sha256 = pub.sha256 ∧ row.publisher = publisher

theorem Credits.grows {store later : Store} {publisher : String} {pub : PublishedArtifact}
    (h : Credits store publisher pub) (hGrows : store.Grows later) : Credits later publisher pub := by
  intro hCoordinate
  obtain ⟨row, hRow, hCredit⟩ := h hCoordinate
  exact ⟨row, hGrows.rows row hRow, hCredit⟩

theorem Reached.credits (hJson : json.Readable) (h : Reached json elsewhere p) (hAt : p.runs[r]? = some run) :
    Vouches (Credits p.store run.submitter) run.execution := by
  refine h.runs (P := fun p run => Vouches (Credits p.store run.submitter) run.execution) ?_ ?_ ?_ ?_ hAt
  · intro p e q run hReached hMove hVouches
    exact hVouches.mono fun pub hCredits => hCredits.grows (hMove.grows hReached.sound)
  · exact fun p host pipeline submitter credentials hReached hAuth => vouches_initial
  · intro p r run event registry execution hReached hRun hVouches hAsks hStep
    refine hStep.moves.vouches hVouches ?_
    intro job artifact data hTakes hCoordinate
    obtain ⟨i, -, answer, hAnswered, hCreated⟩ := hReached.taken hJson hRun hAsks hTakes hCoordinate
    have hInv := hReached.inv hJson
    have hWon := (hInv.sound i _ _ hAnswered).won_of_created hCreated
    obtain ⟨row, hRow, hRecords⟩ := hInv.recorded i _ _ hAnswered hWon
    exact ⟨row, hRow, hRecords.coordinate, hRecords.sha256, hRecords.publisher⟩
  · exact fun p run job i hVouches => hVouches

/-! ## Records -/

/-- A run has the hash of a coordinate on record: in its lockfile, or in what a job reports. -/
inductive System.Records (p : System) : String → String → String → Prop where
  | locked (r : Nat) (run : SubmittedRun) (lockfile : Lockfile) (pkg : LockedPackage) (hRun : p.runs[r]? = some run)
      (hLockfile : run.execution.run.lockfile = some lockfile) (hPkg : pkg ∈ lockfile.packages)
      (hName : Segment pkg.name) : p.Records pkg.name pkg.version pkg.sha256
  | reported (r : Nat) (run : SubmittedRun) (job : String) (entry : JobEntry) (published : List PublishedArtifact)
      (pub : PublishedArtifact) (hRun : p.runs[r]? = some run)
      (hEntry : run.execution.run.jobs.get? job = some entry) (hArtifacts : entry.artifacts = some published)
      (hPub : pub ∈ published) (hCoordinate : isCoordinate pub.name pub.version = true) :
      p.Records pub.name pub.version pub.sha256

theorem Reached.records_row (hJson : json.Readable) (h : Reached json elsewhere p) {name version sha : String}
    (hRecords : p.Records name version sha) :
    ∃ row ∈ p.store.artifacts.rows, row.coordinate = (name, version) ∧ row.sha256 = sha := by
  cases hRecords with
  | locked r run lockfile pkg hRun hLockfile hPkg hName =>
    exact ((h.traced hRun).locks hJson h.sound hLockfile hPkg hName).2
  | reported r run job entry published pub hRun hEntry hArtifacts hPub hCoordinate =>
    obtain ⟨row, hRow, hRowCoordinate, hSha, -⟩ :=
      (h.credits hJson hRun).entry job entry published hEntry hArtifacts pub hPub hCoordinate
    exact ⟨row, hRow, hRowCoordinate, hSha⟩

theorem Reached.later {events : List SystemEvent} (h : Reached json elsewhere p)
    (hLater : Run (System.Step json elsewhere) p events q) : Reached json elsewhere q := by
  obtain ⟨before, hRun⟩ := h
  exact ⟨before ++ events, hRun.append hLater⟩

theorem Reached.grows {events : List SystemEvent} (h : Reached json elsewhere p)
    (hLater : Run (System.Step json elsewhere) p events q) : p.store.Grows q.store := by
  have hKeeps : ∀ s e t, (s.Sound json ∧ p.store.Grows s.store) → System.Step json elsewhere s e t →
      t.Sound json ∧ p.store.Grows t.store :=
    fun s e t hInv hStep => ⟨hStep.moves.sound hInv.1, hInv.2.trans (hStep.moves.grows hInv.1)⟩
  exact (hLater.invariant hKeeps ⟨h.sound, .refl _⟩).2

/-- Whatever the runs have locked or report as published is in the registry with the same hash, then and ever
after, and the rows of what a job reports are its submitter's. So no two records disagree, whichever runs they
are of and whenever they are made. -/
theorem records_agree {events events' : List SystemEvent} (hJson : json.Readable)
    (hRun : Run (System.Step json elsewhere) .initial events p)
    (hLater : Run (System.Step json elsewhere) p events' q) :
    (∀ name version sha, p.Records name version sha →
      ∃ row ∈ q.store.artifacts.rows, row.coordinate = (name, version) ∧ row.sha256 = sha) ∧
    (∀ name version sha sha', p.Records name version sha → q.Records name version sha' → sha = sha') ∧
    ∀ (r : Nat) run job entry published, p.runs[r]? = some run → run.execution.run.jobs.get? job = some entry →
      entry.artifacts = some published → ∀ pub ∈ published, Credits q.store run.submitter pub := by
  have hReached : Reached json elsewhere p := ⟨events, hRun⟩
  have hGrows := hReached.grows hLater
  have hRow : ∀ name version sha, p.Records name version sha →
      ∃ row ∈ q.store.artifacts.rows, row.coordinate = (name, version) ∧ row.sha256 = sha := by
    intro name version sha hRecords
    obtain ⟨row, hRow, hRecorded⟩ := hReached.records_row hJson hRecords
    exact ⟨row, hGrows.rows row hRow, hRecorded⟩
  refine ⟨hRow, ?_, ?_⟩
  · intro name version sha sha' hRecords hRecords'
    obtain ⟨row, hRow, hCoordinate, rfl⟩ := hRow name version sha hRecords
    obtain ⟨row', hRow', hCoordinate', rfl⟩ := (hReached.later hLater).records_row hJson hRecords'
    have hSame := List.inj_on_of_nodup_map q.store.artifacts.unique hRow hRow' (hCoordinate.trans hCoordinate'.symm)
    rw [hSame]
  · intro r run job entry published hAt hEntry hArtifacts pub hPub
    exact ((hReached.credits hJson hAt).entry job entry published hEntry hArtifacts pub hPub).grows hGrows

/-- The coordinates that a run has published, one for each time. -/
def SubmittedRun.accepted (run : SubmittedRun) : List (String × String) :=
  run.execution.history.accepted.filter fun c => isCoordinate c.1 c.2

def libraryPipeline : PipelineConfig :=
  ⟨"library", "1.0.0", [], .ofList [("build", { steps := [⟨"compile", "make > dist/lib.zip"⟩] })],
    [⟨"lib-core", "1.0.0", "dist/lib.zip"⟩]⟩

def servicePipeline : PipelineConfig :=
  ⟨"service", "1.0.0", [entryOf "lib-core" "^1.0.0"], .ofList [("test", { steps := [⟨"test", "make"⟩] })], []⟩

/-- One run publishes `lib-core`, and a later one locks it. -/
def twoRuns : List SystemEvent :=
  [.registry (.createToken "dev" "9b20"), .submit "9b20" exampleHost libraryPipeline,
    .resolve 0 (fun _ => 0) (fun _ _ => 0), .work 0 .plan, .work 0 .enterLevel, .work 0 .submit, .work 0 .submit,
    .work 0 (.work "build" .start), .work 0 (.work "build" .launch), .work 0 (.work "build" (.exit 0)),
    .work 0 (.work "build" (.lookup (some [1]))), .post 0 "build" ""] ++
  List.replicate 6 (.registry (.serve (.advance 0 "t0"))) ++
  [.reply 0 "build" "", .work 0 (.work "build" .receive), .work 0 (.work "build" .finish),
    .work 0 (.collect "build"), .submit "9b20" exampleHost servicePipeline, .resolve 1 (fun _ => 7) (fun _ _ => 0)]

def SubmittedRun.lockfile (run : SubmittedRun) : Option Lockfile := run.execution.run.lockfile

theorem exists_twoRuns : ∃ p, Run (System.Step emptyDepsJson emptyRegistry) .initial twoRuns p ∧
    p.runs.map SubmittedRun.accepted = [[("lib-core", "1.0.0")], []] ∧
    p.runs.map SubmittedRun.lockfile = [some ⟨[]⟩, some ⟨[⟨"lib-core", "1.0.0", sha256 [1]⟩]⟩] := by
  have hSome : ((execute (System.next emptyDepsJson emptyRegistry) .initial twoRuns).any fun p =>
      decide (p.runs.map SubmittedRun.accepted = [[("lib-core", "1.0.0")], []]) &&
      decide (p.runs.map SubmittedRun.lockfile =
        [some ⟨[]⟩, some ⟨[⟨"lib-core", "1.0.0", sha256 [1]⟩]⟩])) = true := by decide +kernel
  obtain ⟨p, hExecute, hEnd⟩ := (Option.any_eq_true _ _).mp hSome
  simp only [Bool.and_eq_true, decide_eq_true_eq] at hEnd
  exact ⟨p, run_stepsOf_iff.mpr hExecute, hEnd⟩

theorem records_agree_twoRuns : ∃ p, Run (System.Step emptyDepsJson emptyRegistry) .initial twoRuns p ∧
    p.Records "lib-core" "1.0.0" (sha256 [1]) ∧
    ∀ sha, p.Records "lib-core" "1.0.0" sha → sha256 [1] = sha := by
  obtain ⟨p, hRun, -, hLockfiles⟩ := exists_twoRuns
  have hLockfile : (p.runs.map SubmittedRun.lockfile)[1]? = some (some ⟨[⟨"lib-core", "1.0.0", sha256 [1]⟩]⟩) := by
    rw [hLockfiles]
    rfl
  rw [List.getElem?_map] at hLockfile
  obtain ⟨run, hAt, hLocked⟩ := Option.map_eq_some_iff.mp hLockfile
  have hName : isSegment "lib-core" = true := by decide
  have hRecords : p.Records "lib-core" "1.0.0" (sha256 [1]) :=
    .locked 1 run _ ⟨"lib-core", "1.0.0", sha256 [1]⟩ hAt hLocked List.mem_cons_self hName
  exact ⟨p, hRun, hRecords, fun sha hOther =>
    (records_agree emptyDepsJson_readable hRun (.nil p)).2.1 _ _ _ sha hRecords hOther⟩

/-! ## Once -/

/-- Each published coordinate has an answered request of its own, for which no worker waits any more. -/
structure Settled (p : System) : Prop where
  answered : ∀ (r : Nat) run, p.runs[r]? = some run → ∀ c ∈ run.accepted, ∃ i request,
    p.service.server.Responds i request 201 ∧ request.coordinate = c ∧ ∀ r' job, ¬ Sends p r' job i
  once : ∀ (r : Nat) run, p.runs[r]? = some run → run.accepted.Nodup
  apart : ∀ (r r' : Nat) run run' c, p.runs[r]? = some run → p.runs[r']? = some run' → c ∈ run.accepted →
    c ∈ run'.accepted → r = r'

/-- What a step adds to the coordinates that a run has published. -/
inductive Accepts (p : System) (e : SystemEvent) (q : System) (r : Nat) (run' : SubmittedRun) : Prop where
  | kept (run : SubmittedRun) (hRun : p.runs[r]? = some run) (hSame : run'.accepted = run.accepted)
  | fresh (hNone : run'.accepted = [])
  | added (run : SubmittedRun) (i : Nat) (job : String) (request : Request) (hRun : p.runs[r]? = some run)
      (hSends : Sends p r job i) (hResponds : p.service.server.Responds i request 201)
      (hSettled : ∀ r' job', ¬ Sends q r' job' i) (hMore : run'.accepted = run.accepted ++ [request.coordinate])

theorem Accepts.mem (h : Accepts p e q r run') {c : String × String} (hMem : c ∈ run'.accepted) :
    (∃ run, p.runs[r]? = some run ∧ c ∈ run.accepted) ∨ ∃ i job request, Sends p r job i ∧
      p.service.server.Responds i request 201 ∧ request.coordinate = c := by
  cases h with
  | kept run hRun hSame => exact .inl ⟨run, hRun, hSame ▸ hMem⟩
  | fresh hNone =>
    rw [hNone] at hMem
    cases hMem
  | added run i job request hRun hSends hResponds hSettled hMore =>
    rw [hMore] at hMem
    cases List.mem_append.mp hMem with
    | inl hOld => exact .inl ⟨run, hRun, hOld⟩
    | inr hNew => exact .inr ⟨i, job, request, hSends, hResponds, (List.mem_singleton.mp hNew).symm⟩

theorem Reached.not_sends (h : Reached json elsewhere p) (hMove : SystemMoves json elsewhere p e q)
    (hSends : Sends p r job i)
    (hRun : q.runs[r]? = some run) (hDone : run.posts job = none) (r' : Nat) (job' : String) :
    ¬ Sends q r' job' i := by
  intro hStill
  rcases hMove.sends hStill with hOld | ⟨hNew, -⟩
  · obtain ⟨rfl, rfl⟩ := h.delivery.apart _ _ _ _ _ hSends hOld
    obtain ⟨run', hRun', hPost⟩ := hStill
    cases hRun.symm.trans hRun'
    cases hDone.symm.trans hPost
  · have hLength := h.delivery.lt_length hSends
    omega

theorem Reached.accepts (hJson : json.Readable) (h : Reached json elsewhere p)
    (hMove : SystemMoves json elsewhere p e q)
    (hRun' : q.runs[r]? = some run') : Accepts p e q r run' := by
  cases hMove.runs hRun' with
  | kept run hRun => exact .kept run' hRun rfl
  | submitted host pipeline submitter credentials hAuth => exact .fresh rfl
  | posted run job i hRun => exact .kept run hRun rfl
  | stepped run event registry execution hRun hAsks hStep =>
    have hSteps := hStep.moves
    rcases hSteps.takes with hSame | ⟨job, artifact, data, hTakes, hMore⟩
    · exact .kept run hRun (congrArg (List.filter _) hSame)
    · have hFilter : (run.after execution).accepted =
          run.accepted ++ [artifact.coordinate].filter fun c => isCoordinate c.1 c.2 := by
        simp only [SubmittedRun.accepted, SubmittedRun.after, hMore, List.filter_append]
      by_cases hCoordinate : isCoordinate artifact.name artifact.version = true
      · obtain ⟨i, hSends, hResponds⟩ := h.taken hJson hRun hAsks hTakes hCoordinate
        obtain ⟨-, statusCode, text, rest, published, hWorker⟩ := hSteps.accepted_of_takes hTakes
        have hDone : (run.after execution).posts job = none := by
          simp only [SubmittedRun.after, awaited, hWorker]
        have hOnly : [artifact.coordinate].filter (fun c => isCoordinate c.1 c.2) = [artifact.coordinate] :=
          List.filter_cons_of_pos hCoordinate
        exact .added run i job _ hRun hSends hResponds (h.not_sends hMove hSends hRun' hDone)
          (hFilter.trans (by rw [hOnly]; rfl))
      · refine .kept run hRun (hFilter.trans ?_)
        have hNone : [artifact.coordinate].filter (fun c => isCoordinate c.1 c.2) = [] :=
          List.filter_cons_of_neg hCoordinate
        rw [hNone, List.append_nil]

theorem SystemMoves.responds (h : SystemMoves json elsewhere p e q) {request : Request} {status : Nat}
    (hResponds : p.service.server.Responds i request status) : q.service.server.Responds i request status := by
  obtain ⟨shown, hService⟩ := h.service_run
  obtain ⟨more, hServer⟩ := service_server_run hService
  exact run_responds hServer hResponds

theorem lt_length_of_responds {s : Server} {request : Request} {status : Nat} (h : s.Responds i request status) :
    i < s.requests.length := by
  obtain ⟨answer, hAt, -⟩ := h
  exact (List.getElem?_eq_some_iff.mp hAt).1

/-- The coordinate of a request that a worker still waits for has not been published by any run. -/
theorem Settled.fresh (h : Settled p) (hInv : p.service.server.Inv json) (hSends : Sends p r job i) {request : Request}
    (hResponds : p.service.server.Responds i request 201) (hRun' : p.runs[r']? = some run') :
    request.coordinate ∉ run'.accepted := by
  intro hMem
  obtain ⟨i', request', hResponds', hCoordinate, hSettled⟩ := h.answered r' run' hRun' _ hMem
  cases hInv.created_unique hResponds' hResponds hCoordinate
  exact hSettled r job hSends

theorem Settled.not_sends (h : Settled p) (hMove : SystemMoves json elsewhere p e q) (hRun : p.runs[r]? = some run)
    {c : String × String} (hMem : c ∈ run.accepted) : ∃ i request, q.service.server.Responds i request 201 ∧
      request.coordinate = c ∧ ∀ r' job, ¬ Sends q r' job i := by
  obtain ⟨i, request, hResponds, hCoordinate, hSettled⟩ := h.answered r run hRun c hMem
  refine ⟨i, request, hMove.responds hResponds, hCoordinate, fun r' job hSends => ?_⟩
  rcases hMove.sends hSends with hOld | ⟨hNew, -⟩
  · exact hSettled r' job hOld
  · have hLength := lt_length_of_responds hResponds
    omega

theorem Settled.moves (hJson : json.Readable) (h : Settled p) (hReached : Reached json elsewhere p)
    (hMove : SystemMoves json elsewhere p e q) : Settled q where
  answered r run' hRun' c hMem := by
    cases hReached.accepts hJson hMove hRun' with
    | kept run hRun hSame => exact h.not_sends hMove hRun (hSame ▸ hMem)
    | fresh hNone =>
      rw [hNone] at hMem
      cases hMem
    | added run i job request hRun hSends hResponds hSettled hMore =>
      rw [hMore] at hMem
      cases List.mem_append.mp hMem with
      | inl hOld => exact h.not_sends hMove hRun hOld
      | inr hNew => exact ⟨i, request, hMove.responds hResponds, (List.mem_singleton.mp hNew).symm, hSettled⟩
  once r run' hRun' := by
    cases hReached.accepts hJson hMove hRun' with
    | kept run hRun hSame => exact hSame ▸ h.once r run hRun
    | fresh hNone => exact hNone ▸ List.nodup_nil
    | added run i job request hRun hSends hResponds hSettled hMore =>
      have hFresh := h.fresh (hReached.inv hJson) hSends hResponds hRun
      rw [hMore, List.nodup_append]
      refine ⟨h.once r run hRun, List.nodup_singleton _, ?_⟩
      rintro c hc c' hc' rfl
      exact hFresh (List.mem_singleton.mp hc' ▸ hc)
  apart r r' run run' c hRun hRun' hMem hMem' := by
    have hInv := hReached.inv hJson
    rcases (hReached.accepts hJson hMove hRun).mem hMem with ⟨old, hOld, hBefore⟩ | ⟨i, job, request, hSends, hNew, rfl⟩
    · rcases (hReached.accepts hJson hMove hRun').mem hMem' with ⟨old', hOld', hBefore'⟩ |
        ⟨i', job', request', hSends', hNew', rfl⟩
      · exact h.apart r r' old old' c hOld hOld' hBefore hBefore'
      · exact absurd hBefore (h.fresh hInv hSends' hNew' hOld)
    · rcases (hReached.accepts hJson hMove hRun').mem hMem' with ⟨old', hOld', hBefore'⟩ |
        ⟨i', job', request', hSends', hNew', hSame⟩
      · exact absurd hBefore' (h.fresh hInv hSends hNew hOld')
      · cases hInv.created_unique hNew' hNew hSame
        exact (hReached.delivery.apart _ _ _ _ _ hSends hSends').1

theorem settled_initial : Settled .initial where
  answered r run hRun := by cases hRun
  once r run hRun := by cases hRun
  apart r r' run run' c hRun := by cases hRun

/-- Over all runs of the engine, each coordinate is published at most once: by one run, once, and what its jobs
report as published is among it. -/
theorem published_once {events : List SystemEvent} (hJson : json.Readable)
    (hRun : Run (System.Step json elsewhere) .initial events p) :
    (∀ (r : Nat) run, p.runs[r]? = some run → run.accepted.Nodup ∧
      ∀ job entry published, run.execution.run.jobs.get? job = some entry → entry.artifacts = some published →
        ∀ pub ∈ published, isCoordinate pub.name pub.version = true → (pub.name, pub.version) ∈ run.accepted) ∧
    ∀ (r r' : Nat) run run' c, p.runs[r]? = some run → p.runs[r']? = some run' → c ∈ run.accepted →
      c ∈ run'.accepted → r = r' := by
  have hKeeps : ∀ (p : System) e (q : System), (Reached json elsewhere p ∧ Settled p) →
      System.Step json elsewhere p e q →
      Reached json elsewhere q ∧ Settled q := by
    rintro p e q ⟨hReached, hSettled⟩ hStep
    exact ⟨hReached.later (.single hStep), hSettled.moves hJson hReached hStep.moves⟩
  obtain ⟨hReached, hSettled⟩ := hRun.invariant hKeeps ⟨⟨[], .nil _⟩, settled_initial⟩
  refine ⟨fun r run hAt => ⟨hSettled.once r run hAt, ?_⟩, hSettled.apart⟩
  intro job entry published hEntry hArtifacts pub hPub hCoordinate
  obtain ⟨registry, events, -, hAlone⟩ := hReached.traced hAt
  exact List.mem_filter.mpr ⟨(vouches_accepted hAlone).entry job entry published hEntry hArtifacts pub hPub, hCoordinate⟩

theorem published_once_twoRuns : ∃ p, Run (System.Step emptyDepsJson emptyRegistry) .initial twoRuns p ∧
    p.runs.map SubmittedRun.accepted = [[("lib-core", "1.0.0")], []] ∧
    ∀ (r r' : Nat) run run' c, p.runs[r]? = some run → p.runs[r']? = some run' → c ∈ run.accepted →
      c ∈ run'.accepted → r = r' := by
  obtain ⟨p, hRun, hAccepted, -⟩ := exists_twoRuns
  exact ⟨p, hRun, hAccepted, (published_once emptyDepsJson_readable hRun).2⟩

end Forge.Platform
