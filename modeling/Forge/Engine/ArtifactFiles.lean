import Forge.Engine.Execution
import Forge.Engine.Idempotence
import Forge.Python.PosixPath

/-! # The files of artifacts

`execute_job` looks for each artifact below the workspace. The path of an artifact is checked as it is written
in the document, then stripped of whitespace, and for the lookup of all dots and slashes at its start.
-/
namespace Forge.Engine
open Forge.Python Forge.Registry Forge.Theory PipelineParser
set_option autoImplicit false

/-- The file that `execute_job` looks up. -/
def artifactPath (workspacePath : String) (artifact : PipelineArtifact) : String :=
  pathJoin workspacePath (relPath artifact)

/-! ## Below the workspace -/

theorem parent_notMem {path : String} (h : ValidPath path) : ".." ∉ splitOn path '/' := by
  intro hMem
  obtain ⟨part, hPart, hParent⟩ := List.mem_map.mp hMem
  have hDots : part = ['.', '.'] := String.ofList_injective hParent
  apply h.parent
  rw [pathParts, splitOn, String.toList_ofList, splitOn_map (by decide)]
  refine List.mem_map.mpr ⟨part, List.mem_flatMap.mpr ⟨part, hPart, ?_⟩, hParent⟩
  rw [hDots]
  decide

theorem not_parent_infix {path : String} (h : ValidPath path) (x y : List Char) :
    path.toList ≠ x ++ '/' :: (['.', '.'] ++ '/' :: y) := by
  intro hText
  apply parent_notMem h
  have hNoSlash : '/' ∉ ['.', '.'] := by decide
  rw [splitOn, hText, List.splitOn_append_cons_self, List.splitOn_append_cons_self_of_not_mem hNoSlash]
  exact List.mem_map.mpr ⟨['.', '.'], by simp, rfl⟩

theorem lstripPath_strip_infix (path : String) : (lstripPath (strip path)).toList <:+: path.toList := by
  rw [lstripPath, lstripChars, strip, String.toList_ofList, String.toList_ofList]
  have hStrip : stripChars path.toList <:+: path.toList :=
    (stripChars_isPrefix _).isInfix.trans (List.dropWhile_suffix _).isInfix
  exact (List.dropWhile_suffix _).isInfix.trans hStrip

theorem lstripPath_head {path : String} {c : Char} {cs : List Char} (h : (lstripPath path).toList = c :: cs) :
    c ≠ '.' ∧ c ≠ '/' := by
  have hNot := List.head?_dropWhile_not (fun c => decide (c ∈ ['.', '/'])) path.toList
  rw [lstripPath, lstripChars, String.toList_ofList] at h
  rw [h] at hNot
  simpa using hNot

theorem lstripPath_relative (path : String) : startsWith (lstripPath path) "/" = false := by
  rw [Bool.eq_false_iff]
  intro hStarts
  obtain ⟨cs, hText⟩ := (startsWith_iff (c := '/') (by decide)).mp hStarts
  exact (lstripPath_head hText).2 rfl

/-- What is left of an accepted path starts with a name, and only its last component may be a step up. -/
theorem staysBelow_lstripPath {path : String} (h : ValidPath path) :
    staysBelow 0 (splitOn (lstripPath (strip path)) '/') = true := by
  obtain ⟨before, after, hInfix⟩ := lstripPath_strip_infix path
  cases hRest : (lstripPath (strip path)).toList with
  | nil =>
    rw [splitOn, hRest]
    decide
  | cons c cs =>
    obtain ⟨hDot, hSlash⟩ := lstripPath_head hRest
    obtain ⟨first, parts, hParts⟩ := List.exists_cons_of_ne_nil (List.splitOn_ne_nil '/' cs)
    have hSplit : (c :: cs).splitOn '/' = (c :: first) :: parts := by
      rw [List.splitOn_cons_eq_if_modifyHead, if_neg (by simpa using hSlash), hParts]
      rfl
    rw [splitOn, hRest, hSplit, List.map_cons, staysBelow_name (isName_of_head (by simp) hDot)]
    apply staysBelow_succ
    rw [← List.map_dropLast]
    intro hParent
    obtain ⟨part, hPart, hDots⟩ := List.mem_map.mp hParent
    obtain ⟨x, y, hText⟩ := exists_of_mem_inner hSplit hPart
    have hPath : path.toList = (before ++ x) ++ '/' :: (part ++ '/' :: (y ++ after)) := by
      rw [← hInfix, hRest, hText]
      simp
    rw [String.ofList_injective hDots] at hPath
    exact not_parent_infix h _ _ hPath

/-! ## The dictionary that the engine is given -/

/-- The files that a job publishes lie below the workspace. -/
theorem artifactPath_within {compose : YamlModule} {source : Source} {pipeline : Pipeline}
    (h : parseAndValidate compose source = .ok pipeline.toDict) {artifact : PipelineArtifact}
    (hArtifact : artifact ∈ pipeline.artifacts) (workspacePath : String) :
    (normalPath (artifactPath workspacePath artifact)).Within (normalPath workspacePath) := by
  obtain ⟨data, raw, -, -, hValid, hDict⟩ := exists_of_parse_ok h
  cases Pipeline.toDict_injective hDict
  obtain ⟨declared, hDeclared, rfl⟩ := List.mem_map.mp hArtifact
  have hStays := staysBelow_lstripPath (hValid.artifacts declared hDeclared).path
  exact normalPath_join_within (lstripPath_relative _) hStays

theorem exists_demo_artifact (path : String)
    (hOk : (parseAndValidate noLoader (.dict (demoDocument "test" path))).isOk = true) :
    ∃ (pipeline : Pipeline) (artifact : PipelineArtifact),
      parseAndValidate noLoader (.dict (demoDocument "test" path)) = .ok pipeline.toDict ∧
        artifact ∈ pipeline.artifacts ∧ artifact.path = strip path := by
  obtain ⟨d, h⟩ := exists_of_isOk hOk
  obtain ⟨data, raw, hDocument, hRaw, -, rfl⟩ := exists_of_parse_ok h
  cases hDocument
  have hPaths : [path] = raw.artifacts.map PipelineArtifact.path := hRaw.artifactPaths
  obtain ⟨artifact, hArtifact, hPath⟩ := List.mem_map.mp (hPaths ▸ List.mem_singleton_self path)
  exact ⟨raw.normalise, normaliseArtifact artifact, h, List.mem_map_of_mem hArtifact, congrArg strip hPath⟩

/-- A blank hides from the check that the path starts with a step up. -/
theorem artifactPath_within_demo : ∃ (pipeline : Pipeline) (artifact : PipelineArtifact),
    parseAndValidate noLoader (.dict (demoDocument "test" " ..//./dist\\..x/make")) = .ok pipeline.toDict ∧
      artifact ∈ pipeline.artifacts ∧ artifact.path = "..//./dist\\..x/make" ∧
        (normalPath (artifactPath "/data/runs/0a1b2c3d/workspace" artifact)).Within
          (normalPath "/data/runs/0a1b2c3d/workspace") := by
  obtain ⟨pipeline, artifact, h, hArtifact, hPath⟩ :=
    exists_demo_artifact " ..//./dist\\..x/make" (by decide +kernel)
  exact ⟨pipeline, artifact, h, hArtifact, hPath.trans (by decide), artifactPath_within h hArtifact _⟩

/-! ## The declared file -/

/-- What is left of the components of a path without the dots and slashes at its start. -/
def dropDots : List (List Char) → List (List Char)
  | [] => []
  | [last] => [last.dropWhile (· == '.')]
  | part :: next :: rest =>
    if part.dropWhile (· == '.') = [] then dropDots (next :: rest)
    else part.dropWhile (· == '.') :: next :: rest

theorem dropDots_dot (part : List Char) (parts : List (List Char)) :
    dropDots (('.' :: part) :: parts) = dropDots (part :: parts) := by
  cases parts with
  | nil => simp [dropDots]
  | cons next rest => simp [dropDots]

theorem dropDots_of_head {c : Char} (h : c ≠ '.') (part : List Char) (parts : List (List Char)) :
    dropDots ((c :: part) :: parts) = (c :: part) :: parts := by
  cases parts with
  | nil => simp [dropDots, h]
  | cons next rest => simp [dropDots, h]

theorem splitOn_dropWhile (cs : List Char) :
    (cs.dropWhile fun c => c ∈ ['.', '/']).splitOn '/' = dropDots (cs.splitOn '/') := by
  induction cs with
  | nil => rfl
  | cons c cs ih =>
    obtain ⟨first, rest, hParts⟩ := List.exists_cons_of_ne_nil (List.splitOn_ne_nil '/' cs)
    rw [List.splitOn_cons_eq_if_modifyHead]
    by_cases hSlash : c = '/'
    · rw [hSlash, List.dropWhile_cons_of_pos (by decide), if_pos (by decide), ih, hParts, dropDots,
        if_pos List.dropWhile_nil]
    · rw [if_neg (by simpa using hSlash), hParts, List.modifyHead_cons]
      by_cases hDot : c = '.'
      · rw [hDot, List.dropWhile_cons_of_pos (by decide), ih, hParts, dropDots_dot]
      · rw [List.dropWhile_cons_of_neg (by simp [hDot, hSlash]), dropDots_of_head hDot,
          List.splitOn_cons_eq_if_modifyHead, if_neg (by simpa using hSlash), hParts, List.modifyHead_cons]

def isKept (part : List Char) : Bool := part ≠ [] ∧ part ≠ ['.']

section
variable {part : List Char}

theorem dropWhile_ne_dot (part rest : List Char) : part.dropWhile (· == '.') ≠ '.' :: rest := by
  intro hDot
  have hHead := List.head?_dropWhile_not (· == '.') part
  rw [hDot] at hHead
  simp at hHead

theorem head?_of_dropWhile_nil (h : part.dropWhile (· == '.') = []) (hPart : isKept part = true) :
    part.head? = some '.' := by
  cases part with
  | nil => cases hPart
  | cons c part =>
    have hDot : c = '.' := by simpa using List.dropWhile_eq_nil_iff.mp h c List.mem_cons_self
    rw [hDot, List.head?_cons]

theorem isKept_dropWhile (h : part.dropWhile (· == '.') ≠ []) :
    isKept (part.dropWhile (· == '.')) = true ∧ isKept part = true := by
  have hPart : part ≠ [] := by
    rintro rfl
    exact h rfl
  have hHere : part ≠ ['.'] := by
    rintro rfl
    exact h rfl
  exact ⟨decide_eq_true ⟨h, dropWhile_ne_dot part []⟩, decide_eq_true ⟨hPart, hHere⟩⟩

theorem dropWhile_eq_self_iff_head (h : part.dropWhile (· == '.') ≠ []) :
    part.dropWhile (· == '.') = part ↔ part.head? ≠ some '.' := by
  cases part with
  | nil => exact absurd rfl h
  | cons c part =>
    rw [List.head?_cons, Ne, Option.some_inj]
    by_cases hDot : c = '.'
    · refine iff_of_false (fun hSelf => ?_) (not_not_intro hDot)
      have hLength := (List.dropWhile_sublist (· == '.') (l := part)).length_le
      rw [hDot, List.dropWhile_cons_of_pos (by decide)] at hSelf
      have := congrArg List.length hSelf
      rw [List.length_cons] at this
      omega
    · exact iff_of_true (List.dropWhile_cons_of_neg (by simpa using hDot)) hDot

end

theorem notMem_dropDots {parts : List (List Char)} (h : ['.', '.'] ∉ parts) : ['.', '.'] ∉ dropDots parts := by
  fun_induction dropDots parts with
  | case1 => exact h
  | case2 last => simp [Ne.symm (dropWhile_ne_dot last ['.'])]
  | case3 part next rest hDots ih => exact ih fun hMem => h (List.mem_cons_of_mem part hMem)
  | case4 part next rest hDots =>
    rw [List.mem_cons, not_or]
    exact ⟨Ne.symm (dropWhile_ne_dot part ['.']), fun hMem => h (List.mem_cons_of_mem part hMem)⟩

theorem length_filter_dropDots (parts : List (List Char)) :
    ((dropDots parts).filter isKept).length ≤ (parts.filter isKept).length := by
  fun_induction dropDots parts with
  | case1 => exact le_rfl
  | case2 last =>
    by_cases hDots : last.dropWhile (· == '.') = []
    · simp [hDots, isKept]
    · obtain ⟨hRest, hLast⟩ := isKept_dropWhile hDots
      simp [hRest, hLast]
  | case3 part next rest hDots ih =>
    exact ih.trans ((List.sublist_cons_self part (next :: rest)).filter isKept).length_le
  | case4 part next rest hDots =>
    obtain ⟨hRest, hPart⟩ := isKept_dropWhile hDots
    rw [List.filter_cons_of_pos hRest, List.filter_cons_of_pos hPart, List.length_cons, List.length_cons]

/-- The dots that are dropped belong to a name unless the first name does not start with a dot. -/
theorem filter_dropDots_eq_iff (parts : List (List Char)) :
    (dropDots parts).filter isKept = parts.filter isKept ↔
      ∀ part ∈ parts.find? isKept, part.head? ≠ some '.' := by
  fun_induction dropDots parts with
  | case1 => simp
  | case2 last =>
    by_cases hDots : last.dropWhile (· == '.') = []
    · rw [hDots, List.filter_cons_of_neg (by simp [isKept])]
      cases hLast : isKept last with
      | false =>
        rw [List.filter_cons_of_neg (by simp [hLast]), List.find?_cons_of_neg (by simp [hLast])]
        simp
      | true =>
        rw [List.filter_cons_of_pos hLast, List.find?_cons_of_pos hLast]
        simp [head?_of_dropWhile_nil hDots hLast]
    · obtain ⟨hRest, hLast⟩ := isKept_dropWhile hDots
      simpa [hRest, hLast] using dropWhile_eq_self_iff_head hDots
  | case3 part next rest hDots ih =>
    cases hPart : isKept part with
    | false =>
      rw [List.filter_cons_of_neg (by simp [hPart]), List.find?_cons_of_neg (by simp [hPart])]
      exact ih
    | true =>
      have hHead := head?_of_dropWhile_nil hDots hPart
      have hLength := length_filter_dropDots (next :: rest)
      rw [List.filter_cons_of_pos hPart, List.find?_cons_of_pos hPart]
      refine iff_of_false (fun hSame => ?_) (by simp [hHead])
      rw [hSame, List.length_cons] at hLength
      omega
  | case4 part next rest hDots =>
    obtain ⟨hRest, hPart⟩ := isKept_dropWhile hDots
    rw [List.filter_cons_of_pos hRest, List.filter_cons_of_pos hPart, List.find?_cons_of_pos hPart]
    simpa using dropWhile_eq_self_iff_head hDots

/-- The first component that is neither empty nor `.` does not start with a dot. -/
def OpensPlainly (path : String) : Prop :=
  ∀ comp ∈ (splitOn path '/').find? fun comp => comp ≠ "" ∧ comp ≠ ".", startsWith comp "." = false

instance (path : String) : Decidable (OpensPlainly path) :=
  inferInstanceAs (Decidable (∀ comp ∈ (splitOn path '/').find? _, startsWith comp "." = false))

theorem isKept_eq :
    (fun comp : String => decide (comp ≠ "" ∧ comp ≠ ".")) ∘ String.ofList = isKept := by
  funext part
  have hEmpty : String.ofList part = "" ↔ part = [] := by
    rw [← String.ofList_nil, String.ofList_inj]
  have hHere : String.ofList part = String.ofList ['.'] ↔ part = ['.'] := String.ofList_inj
  simp only [Function.comp_apply, isKept, ne_eq, hEmpty, ← hHere]

theorem opensPlainly_iff (path : String) : OpensPlainly path ↔
    ∀ part ∈ (path.toList.splitOn '/').find? isKept, part.head? ≠ some '.' := by
  rw [OpensPlainly, splitOn, List.find?_map, isKept_eq]
  cases (path.toList.splitOn '/').find? isKept with
  | none => simp
  | some part =>
    have hStarts : startsWith (String.ofList part) "." = false ↔ part.head? ≠ some '.' := by
      rw [Bool.eq_false_iff, ne_eq, startsWith_iff (c := '.') (by decide), String.toList_ofList,
        ne_eq, List.head?_eq_some_iff]
    simpa using hStarts

/-- The text of the normal form below a directory, for a path without steps up. -/
theorem normalPath_join_of_notMem {a b : String} (h : startsWith b "/" = false) (hParent : ".." ∉ splitOn b '/') :
    normalPath (pathJoin a b) = ⟨(normalPath a).slashes,
      (normalPath a).comps ++ ((b.toList.splitOn '/').filter isKept).map String.ofList⟩ := by
  rw [normalPath_join h, pushComps, foldl_pushComp_of_notMem hParent, splitOn, List.filter_map, isKept_eq]
  rfl

/-- Where no component is a step up, the two texts name the same file if and only if no dot of a name is lost. -/
theorem normalPath_lstripPath_iff {path : String} (hRelative : startsWith path "/" = false)
    (hParent : ".." ∉ splitOn path '/') (workspacePath : String) :
    normalPath (pathJoin workspacePath (lstripPath path)) = normalPath (pathJoin workspacePath path) ↔
      OpensPlainly path := by
  have hSplit : (lstripPath path).toList.splitOn '/' = dropDots (path.toList.splitOn '/') := by
    rw [lstripPath, lstripChars, String.toList_ofList, splitOn_dropWhile]
  have hRest : ".." ∉ splitOn (lstripPath path) '/' := by
    intro hMem
    obtain ⟨part, hPart, hDots⟩ := List.mem_map.mp hMem
    rw [hSplit, String.ofList_injective hDots] at hPart
    exact notMem_dropDots (fun hDots => hParent (List.mem_map.mpr ⟨_, hDots, rfl⟩)) hPart
  rw [normalPath_join_of_notMem (lstripPath_relative path) hRest, normalPath_join_of_notMem hRelative hParent,
    hSplit, opensPlainly_iff, ← filter_dropDots_eq_iff]
  simp only [NormalPath.mk.injEq, true_and, List.append_cancel_left_eq]
  exact (Function.Injective.list_map fun _ _ => String.ofList_injective).eq_iff

/-- The paths of the artifacts as a document declares them. -/
def declaredPaths (data : Dict Key Value) : List String :=
  (artifactItems data).map fun item => textField item "path"

/-- The file that is looked up for a declared path without surrounding whitespace is the declared one if and only
if the first name in the path does not start with a dot. -/
theorem artifactPath_eq_iff {compose : YamlModule} {source : Source} {pipeline : Pipeline}
    (h : parseAndValidate compose source = .ok pipeline.toDict) :
    ∃ data, source.document? compose = some data ∧
      List.Forall₂ (fun path artifact => strip path = path → ∀ workspacePath,
        normalPath (artifactPath workspacePath artifact) = normalPath (pathJoin workspacePath path) ↔
          OpensPlainly path) (declaredPaths data) pipeline.artifacts := by
  obtain ⟨data, raw, hDocument, hRaw, hValid, hDict⟩ := exists_of_parse_ok h
  cases Pipeline.toDict_injective hDict
  refine ⟨data, hDocument, ?_⟩
  rw [declaredPaths, hRaw.artifactPaths, Pipeline.normalise,
    List.forall₂_map_left_iff, List.forall₂_map_right_iff, List.forall₂_same]
  intro artifact hArtifact hStrip workspacePath
  have hPath := (hValid.artifacts artifact hArtifact).path
  have hLookup : artifactPath workspacePath (normaliseArtifact artifact) =
      pathJoin workspacePath (lstripPath artifact.path) := by
    rw [← hStrip]
    rfl
  rw [hLookup]
  exact normalPath_lstripPath_iff hPath.relative (parent_notMem hPath) workspacePath

theorem artifactPath_eq_demo : ∃ (pipeline : Pipeline) (artifact : PipelineArtifact),
    parseAndValidate noLoader (.dict (demoDocument "test" "./dist/app.zip")) = .ok pipeline.toDict ∧
      artifact ∈ pipeline.artifacts ∧
        normalPath (artifactPath "/data/runs/0a1b2c3d/workspace" artifact) =
          normalPath (pathJoin "/data/runs/0a1b2c3d/workspace" "./dist/app.zip") := by
  obtain ⟨pipeline, -, h, -⟩ := exists_demo_artifact "./dist/app.zip" (by decide +kernel)
  obtain ⟨data, hDocument, hFiles⟩ := artifactPath_eq_iff h
  cases hDocument
  have hDeclared : declaredPaths (.ofList (demoDocument "test" "./dist/app.zip")) = ["./dist/app.zip"] := rfl
  rw [hDeclared] at hFiles
  obtain ⟨artifact, _, hSame, -, hArtifacts⟩ := List.forall₂_cons_left_iff.mp hFiles
  refine ⟨pipeline, artifact, h, hArtifacts ▸ List.mem_cons_self, ?_⟩
  exact (hSame (by decide) "/data/runs/0a1b2c3d/workspace").mpr (by decide)

/-- The dot of a hidden directory is lost. -/
theorem artifactPath_ne_demo : ∃ (pipeline : Pipeline) (artifact : PipelineArtifact),
    parseAndValidate noLoader (.dict (demoDocument "test" ".dist/app.zip")) = .ok pipeline.toDict ∧
      artifact ∈ pipeline.artifacts ∧ strip ".dist/app.zip" = ".dist/app.zip" ∧
        normalPath (artifactPath "/data/runs/0a1b2c3d/workspace" artifact) ≠
          normalPath (pathJoin "/data/runs/0a1b2c3d/workspace" ".dist/app.zip") := by
  obtain ⟨pipeline, artifact, h, hArtifact, hPath⟩ :=
    exists_demo_artifact ".dist/app.zip" (by decide +kernel)
  refine ⟨pipeline, artifact, h, hArtifact, by decide, ?_⟩
  rw [artifactPath, relPath, hPath]
  decide

end Forge.Engine
