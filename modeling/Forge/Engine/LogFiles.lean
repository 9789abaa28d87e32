import Forge.Engine.ArtifactFiles

/-! # The files of logs

Where `LogStreamer.write` appends to. The name of a job comes from the document as it is, and the operator `/`
of `pathlib` joins it to the directory of the run.
-/
namespace Forge.Engine
open Forge.Python Forge.Registry Forge.Theory PipelineParser
set_option autoImplicit false

def logDir (storageRoot : String) : String := pathJoin storageRoot "logs"

/-- `LogStreamer._run_dir` -/
def runDir (storageRoot runId : String) : String := pathJoin (logDir storageRoot) runId

def jobPath (storageRoot runId job : String) : String := pathJoin (runDir storageRoot runId) (job ++ ".log")

def combinedPath (storageRoot runId : String) : String := pathJoin (runDir storageRoot runId) "combined.jsonl"

def isHexDigit (c : Char) : Bool := ('0' ≤ c && c ≤ '9') || ('a' ≤ c && c ≤ 'f')

/-- The shape of `str(uuid.uuid4())[:8]`. -/
def isRunId (runId : String) : Bool := runId.toList.length = 8 && runId.toList.all isHexDigit

/-- The log files of the jobs are files of the run, each of one job only. -/
structure LogsConfined (storageRoot runId : String) (jobs : List String) : Prop where
  within : ∀ job ∈ jobs, (normalPath (jobPath storageRoot runId job)).Within (normalPath (runDir storageRoot runId))
  below : ∀ job ∈ jobs, normalPath (jobPath storageRoot runId job) ≠ normalPath (runDir storageRoot runId)
  combined : ∀ job ∈ jobs,
    normalPath (jobPath storageRoot runId job) ≠ normalPath (combinedPath storageRoot runId)
  distinct : ∀ job ∈ jobs, ∀ other ∈ jobs,
    normalPath (jobPath storageRoot runId job) = normalPath (jobPath storageRoot runId other) → job = other

/-- The components of a log file below the directory of the run. -/
def logComps (job : String) : List String := splitOn (job ++ ".log") '/'

/-- No name is absolute or leads out of the directory that it starts from, and no two name the same file. -/
structure NamesConfined (jobs : List String) : Prop where
  relative : ∀ job ∈ jobs, startsWith job "/" = false
  stays : ∀ job ∈ jobs, staysBelow 0 (logComps job) = true
  distinct : ∀ job ∈ jobs, ∀ other ∈ jobs, namesBelow (logComps job) = namesBelow (logComps other) → job = other

/-! ## The directory of a run -/

section
variable {runId : String}

theorem notMem_of_isRunId (h : isRunId runId = true) {c : Char} (hc : isHexDigit c = false) :
    c ∉ runId.toList := by
  intro hMem
  rw [isRunId, Bool.and_eq_true] at h
  rw [List.all_eq_true.mp h.2 c hMem] at hc
  cases hc

theorem isName_of_isRunId (h : isRunId runId = true) : IsName runId := by
  cases hText : runId.toList with
  | nil => simp [isRunId, hText] at h
  | cons c cs =>
    refine isName_of_head (c := c) (by rw [hText]; rfl) ?_
    rintro rfl
    exact notMem_of_isRunId h (c := '.') (by decide) (hText ▸ List.mem_cons_self)

theorem normalPath_runDir (h : isRunId runId = true) (storageRoot : String) :
    normalPath (runDir storageRoot runId) =
      ⟨(normalPath (logDir storageRoot)).slashes, (normalPath (logDir storageRoot)).comps ++ [runId]⟩ := by
  have hNoSlash : '/' ∉ runId.toList := notMem_of_isRunId h (by decide)
  have hParts : splitOn runId '/' = [runId] := by
    rw [splitOn, List.splitOn_eq_singleton hNoSlash, List.map_cons, String.ofList_toList, List.map_nil]
  rw [runDir, normalPath_join (startsWith_eq_false "/" (c := '/') (by decide) hNoSlash), pushComps, hParts,
    List.foldl_cons, (isName_of_isRunId h).pushComp, List.foldl_nil]
  rfl

end

/-! ## Files of a run -/

theorem exists_namesBelow_logComps (job : String) :
    ∃ dirs last, namesBelow (logComps job) = dirs ++ [String.ofList (last ++ ".log".toList)] := by
  have hNoSlash : '/' ∉ ".log".toList := by decide
  obtain ⟨dirs, last, hParts⟩ := splitOn_append_of_notMem hNoSlash job.toList
  refine ⟨(dirs.map String.ofList).foldl (pushComp true) [], last, ?_⟩
  have hComps : logComps job = dirs.map String.ofList ++ [String.ofList (last ++ ".log".toList)] := by
    rw [logComps, splitOn, String.toList_append, hParts, List.map_append, List.map_singleton]
  have hLong : ∀ short : String, short.toList.length < 4 → String.ofList (last ++ ".log".toList) ≠ short := by
    rintro short hShort rfl
    have hLog : ".log".toList.length = 4 := by decide
    rw [String.toList_ofList, List.length_append, hLog] at hShort
    omega
  have hName : IsName (String.ofList (last ++ ".log".toList)) :=
    ⟨hLong "" (by decide), hLong "." (by decide), hLong ".." (by decide)⟩
  rw [namesBelow, hComps, List.foldl_append, List.foldl_cons, hName.pushComp, List.foldl_nil]

variable {storageRoot runId : String} {jobs : List String}

theorem startsWith_append {job : String} (h : startsWith job "/" = false) :
    startsWith (job ++ ".log") "/" = false := by
  rw [Bool.eq_false_iff, ne_eq, startsWith_iff (c := '/') (by decide)] at h ⊢
  rintro ⟨cs, hText⟩
  rw [String.toList_append] at hText
  cases hJob : job.toList with
  | nil =>
    rw [hJob] at hText
    cases hText
  | cons c rest =>
    rw [hJob, List.cons_append] at hText
    exact h ⟨rest, by rw [hJob, (List.cons.inj hText).1]⟩

theorem normalPath_jobPath {job : String} (hRelative : startsWith job "/" = false)
    (hStays : staysBelow 0 (logComps job) = true) : normalPath (jobPath storageRoot runId job) =
      ⟨(normalPath (runDir storageRoot runId)).slashes,
        (normalPath (runDir storageRoot runId)).comps ++ namesBelow (logComps job)⟩ :=
  normalPath_join_of_staysBelow (startsWith_append hRelative) hStays

theorem NamesConfined.logsConfined (h : NamesConfined jobs) (storageRoot runId : String) :
    LogsConfined storageRoot runId jobs where
  within job hJob := normalPath_join_within (startsWith_append (h.relative job hJob)) (h.stays job hJob)
  below job hJob := by
    obtain ⟨dirs, last, hNames⟩ := exists_namesBelow_logComps job
    rw [normalPath_jobPath (h.relative job hJob) (h.stays job hJob), hNames]
    intro hSame
    simpa using congrArg NormalPath.comps hSame
  combined job hJob := by
    obtain ⟨dirs, last, hNames⟩ := exists_namesBelow_logComps job
    have hCombined : namesBelow (splitOn "combined.jsonl" '/') = ["combined.jsonl"] := by decide
    rw [normalPath_jobPath (h.relative job hJob) (h.stays job hJob), hNames, combinedPath,
      normalPath_join_of_staysBelow (by decide) (by decide), hCombined]
    intro hSame
    have hComps := List.append_cancel_left (congrArg NormalPath.comps hSame)
    have hText := congrArg List.getLast? hComps
    rw [List.getLast?_concat, List.getLast?_singleton, Option.some_inj] at hText
    have hLast := congrArg (fun name => name.toList.getLast?) hText
    have hExt : ".log".toList.getLast? = some 'g' := by decide
    have hJson : "combined.jsonl".toList.getLast? = some 'l' := by decide
    rw [String.toList_ofList, List.getLast?_append, hExt, hJson, Option.some_or] at hLast
    exact absurd (Option.some.inj hLast) (by decide)
  distinct job hJob other hOther hSame := by
    rw [normalPath_jobPath (h.relative job hJob) (h.stays job hJob),
      normalPath_jobPath (h.relative other hOther) (h.stays other hOther)] at hSame
    apply h.distinct job hJob other hOther
    simpa using congrArg NormalPath.comps hSame

/-- No file lies inside the directories of two runs. -/
theorem Within.runId_unique {path : NormalPath} {other : String} (hRun : isRunId runId = true)
    (hOther : isRunId other = true) (h : path.Within (normalPath (runDir storageRoot runId)))
    (h' : path.Within (normalPath (runDir storageRoot other))) : runId = other := by
  rw [normalPath_runDir hRun] at h
  rw [normalPath_runDir hOther] at h'
  obtain ⟨-, rest, hComps, -⟩ := h
  obtain ⟨-, rest', hComps', -⟩ := h'
  simp only [hComps', List.append_assoc, List.append_cancel_left_eq, List.singleton_append, List.cons.injEq] at hComps
  exact hComps.1.symm

/-- A log file that is the same one for all runs lies outside of one of their directories. -/
theorem not_within_of_fixed {job : String} {path : NormalPath}
    (hFixed : ∀ runId, isRunId runId = true → normalPath (jobPath storageRoot runId job) = path) :
    ∃ runId, isRunId runId = true ∧
      ¬ (normalPath (jobPath storageRoot runId job)).Within (normalPath (runDir storageRoot runId)) := by
  have hZero : isRunId "00000000" = true := by decide
  have hOne : isRunId "00000001" = true := by decide
  by_contra hWithin
  simp only [not_exists, not_and, not_not] at hWithin
  have hFirst := hWithin _ hZero
  have hSecond := hWithin _ hOne
  rw [hFixed _ hZero] at hFirst
  rw [hFixed _ hOne] at hSecond
  exact absurd (Within.runId_unique hZero hOne hFirst hSecond) (by decide)

/-- The log files of all runs are confined if and only if the names of the jobs are. -/
theorem logsConfined_iff (storageRoot : String) (jobs : List String) :
    (∀ runId, isRunId runId = true → LogsConfined storageRoot runId jobs) ↔ NamesConfined jobs := by
  refine ⟨fun hConfined => ?_, fun h runId _ => h.logsConfined storageRoot runId⟩
  have hZero : isRunId "00000000" = true := by decide
  have hWithin : ∀ job ∈ jobs, ∀ path, ¬ ∀ runId, isRunId runId = true →
      normalPath (jobPath storageRoot runId job) = path := by
    intro job hJob path hFixed
    obtain ⟨runId, hRun, hNot⟩ := not_within_of_fixed hFixed
    exact hNot ((hConfined runId hRun).within job hJob)
  have hRelative : ∀ job ∈ jobs, startsWith job "/" = false := by
    intro job hJob
    rw [Bool.eq_false_iff]
    intro hStarts
    have hLog : startsWith (job ++ ".log") "/" = true := by
      obtain ⟨cs, hText⟩ := (startsWith_iff (c := '/') (by decide)).mp hStarts
      rw [startsWith_iff (c := '/') (by decide)]
      exact ⟨cs ++ ".log".toList, by rw [String.toList_append, hText, List.cons_append]⟩
    apply hWithin job hJob (normalPath (job ++ ".log"))
    intro runId _
    rw [jobPath, pathJoin, if_pos hLog]
  have hStays : ∀ job ∈ jobs, staysBelow 0 (logComps job) = true := by
    intro job hJob
    rw [← Bool.not_eq_false]
    intro hLeaves
    obtain ⟨elsewhere, hElse⟩ : ∃ elsewhere, ∀ dir, IsName dir →
        (logComps job).foldl (pushComp ((normalPath (logDir storageRoot)).slashes ≠ 0))
          ((normalPath (logDir storageRoot)).comps ++ [dir]) = elsewhere :=
      exists_of_not_staysBelow (fun _ hMem => absurd hMem List.not_mem_nil) hLeaves
    apply hWithin job hJob ⟨(normalPath (logDir storageRoot)).slashes, elsewhere⟩
    intro runId hRun
    have hDir := normalPath_runDir hRun storageRoot
    have hSlashes : leadingSlashes (runDir storageRoot runId) = (normalPath (logDir storageRoot)).slashes :=
      congrArg NormalPath.slashes hDir
    rw [jobPath, normalPath_join (startsWith_append (hRelative job hJob)), hSlashes, hDir, pushComps,
      ← hElse runId (isName_of_isRunId hRun)]
    rfl
  refine ⟨hRelative, hStays, fun job hJob other hOther hSame => ?_⟩
  apply (hConfined _ hZero).distinct job hJob other hOther
  rw [normalPath_jobPath (hRelative job hJob) (hStays job hJob),
    normalPath_jobPath (hRelative other hOther) (hStays other hOther), hSame]

/-! ## The names of the jobs of a pipeline -/

theorem key_str_injective : Function.Injective Key.str := fun _ _ h => Key.str.inj h

theorem Describes.jobNames {data : Dict Key Value} {pipeline : Pipeline} (h : Describes data pipeline) :
    (jobItems data).map Prod.fst = pipeline.jobs.keys.map Key.str := by
  obtain ⟨jobs, hData, hJobs⟩ := h.jobs
  simp only [jobItems, hData]
  rw [Dict.keys, List.map_map]
  exact map_eq_map_of_forall₂ (fun _ _ hEntry => hEntry.1) hJobs

/-- The names are those of the document, and the logs are confined if and only if they are. -/
theorem jobLogs_confined_iff {compose : YamlModule} {source : Source} {pipeline : Pipeline}
    (h : parseAndValidate compose source = .ok pipeline.toDict) (storageRoot : String) :
    ∃ data, source.document? compose = some data ∧
      (jobItems data).map Prod.fst = pipeline.jobs.keys.map Key.str ∧
      ((∀ runId, isRunId runId = true → LogsConfined storageRoot runId pipeline.jobs.keys) ↔
        NamesConfined pipeline.jobs.keys) := by
  obtain ⟨data, raw, hDocument, hRaw, -, hDict⟩ := exists_of_parse_ok h
  refine ⟨data, hDocument, ?_, logsConfined_iff storageRoot _⟩
  rw [Pipeline.toDict_injective hDict, Pipeline.normalise, Dict.keys_mapValues]
  exact Describes.jobNames hRaw

def jobsDocument (names : List String) : List (Key × Value) :=
  [(.str "name", .str "demo"), (.str "version", .str "1.0.0"),
    (.str "jobs", .dict (names.map fun name => (.str name, .dict [(.str "runtime", .str "alpine:3.18"),
      (.str "resources", .dict [(.str "cpu", .str "0.5"), (.str "memory", .str "512Mi")]),
      (.str "steps", demoSteps "test")])))]

theorem exists_jobs_pipeline (names : List String)
    (hOk : (parseAndValidate noLoader (.dict (jobsDocument names))).isOk = true)
    (hItems : (jobItems (.ofList (jobsDocument names))).map Prod.fst = names.map Key.str) :
    ∃ pipeline : Pipeline, parseAndValidate noLoader (.dict (jobsDocument names)) = .ok pipeline.toDict ∧
      pipeline.jobs.keys = names := by
  obtain ⟨d, h⟩ := exists_of_isOk hOk
  obtain ⟨data, raw, hDocument, hRaw, -, rfl⟩ := exists_of_parse_ok h
  cases hDocument
  refine ⟨raw.normalise, h, key_str_injective.list_map ?_⟩
  rw [← hItems, Pipeline.normalise, Dict.keys_mapValues]
  exact (Describes.jobNames hRaw).symm

theorem jobLogs_confined_demo : ∃ pipeline : Pipeline,
    parseAndValidate noLoader (.dict (jobsDocument ["build", "./lint", ".."])) = .ok pipeline.toDict ∧
      ∀ runId, isRunId runId = true → LogsConfined "/data" runId pipeline.jobs.keys := by
  obtain ⟨pipeline, h, hKeys⟩ := exists_jobs_pipeline ["build", "./lint", ".."] (by decide +kernel) rfl
  obtain ⟨data, -, -, hIff⟩ := jobLogs_confined_iff h "/data"
  refine ⟨pipeline, h, hIff.mpr ?_⟩
  rw [hKeys]
  exact ⟨by decide, by decide, by decide⟩

/-- One job writes above the directory of the run, and two jobs write to the same file. -/
theorem jobLogs_not_confined :
    (∃ pipeline : Pipeline,
      parseAndValidate noLoader (.dict (jobsDocument ["build", "../../evil"])) = .ok pipeline.toDict ∧
        ¬ LogsConfined "/data" "0a1b2c3d" pipeline.jobs.keys) ∧
    ∃ pipeline : Pipeline,
      parseAndValidate noLoader (.dict (jobsDocument ["build", "./build"])) = .ok pipeline.toDict ∧
        ¬ LogsConfined "/data" "0a1b2c3d" pipeline.jobs.keys := by
  obtain ⟨evil, hEvil, hEvilKeys⟩ := exists_jobs_pipeline ["build", "../../evil"] (by decide +kernel) rfl
  obtain ⟨twice, hTwice, hTwiceKeys⟩ := exists_jobs_pipeline ["build", "./build"] (by decide +kernel) rfl
  refine ⟨⟨evil, hEvil, fun hConfined => ?_⟩, twice, hTwice, fun hConfined => ?_⟩
  · have hFile : normalPath (jobPath "/data" "0a1b2c3d" "../../evil") = ⟨1, ["data", "evil.log"]⟩ := by decide
    have hDir : normalPath (runDir "/data" "0a1b2c3d") = ⟨1, ["data", "logs", "0a1b2c3d"]⟩ := by decide
    obtain ⟨-, rest, hComps, -⟩ := hConfined.within "../../evil" (by rw [hEvilKeys]; decide)
    rw [hFile, hDir] at hComps
    simp at hComps
  · have hSame := hConfined.distinct "build" (by rw [hTwiceKeys]; decide) "./build" (by rw [hTwiceKeys]; decide)
      (by decide)
    exact absurd hSame (by decide)

end Forge.Engine
