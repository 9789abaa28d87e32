import Forge.Python.Text

/-! # POSIX paths

`posixpath.join`, which the operator `/` of `pathlib` follows, and the lexical normal form of a path, which
`posixpath.normpath` writes out as a text. Symbolic links play no part in it.
-/
namespace Forge.Python
set_option autoImplicit false

def pathJoin (a b : String) : String :=
  if startsWith b "/" then b
  else if a = "" ∨ endsWith a "/" then a ++ b
  else a ++ "/" ++ b

/-- Two slashes at the start are not the same as one, more than two are. -/
def leadingSlashes (path : String) : Nat :=
  match (path.toList.takeWhile (· == '/')).length with
  | 0 => 0
  | 2 => 2
  | _ => 1

/-- The body of the loop of `normpath` over the components. -/
def pushComp (rooted : Bool) (comps : List String) (comp : String) : List String :=
  if comp = "" ∨ comp = "." then comps
  else if comp ≠ ".." ∨ rooted = false ∧ comps = [] ∨ comps.getLast? = some ".." then comps ++ [comp]
  else comps.dropLast

structure NormalPath where
  slashes : Nat
  comps : List String
  deriving DecidableEq

def pushComps (slashes : Nat) (comps : List String) (path : String) : List String :=
  (splitOn path '/').foldl (pushComp (slashes ≠ 0)) comps

def normalPath (path : String) : NormalPath :=
  ⟨leadingSlashes path, pushComps (leadingSlashes path) [] path⟩

/-- The path is the directory or lies below it. -/
def NormalPath.Within (path dir : NormalPath) : Prop :=
  path.slashes = dir.slashes ∧ ∃ rest, path.comps = dir.comps ++ rest ∧ ".." ∉ rest

/-- The component names an entry of its directory. -/
structure IsName (comp : String) : Prop where
  nonempty : comp ≠ ""
  ne_here : comp ≠ "."
  ne_parent : comp ≠ ".."

/-- Whether the components, from this many names below a directory on, never lead out of it. -/
def staysBelow : Nat → List String → Bool
  | _, [] => true
  | depth, comp :: comps =>
    if comp = "" ∨ comp = "." then staysBelow depth comps
    else if comp = ".." then 0 < depth && staysBelow (depth - 1) comps
    else staysBelow (depth + 1) comps

/-- What is left of the components of a path below some directory. -/
def namesBelow (comps : List String) : List String := comps.foldl (pushComp true) []

example : normalPath "/a/./b//../c" = ⟨1, ["a", "c"]⟩ := by decide

/-! ## Single components -/

variable {rooted : Bool} {comp : String} {comps base names : List String}

theorem pushComp_skip (h : comp = "" ∨ comp = ".") : pushComp rooted comps comp = comps := by
  rw [pushComp, if_pos h]

theorem IsName.not_skip (h : IsName comp) : ¬(comp = "" ∨ comp = ".") := by
  rintro (hEmpty | hHere)
  · exact h.nonempty hEmpty
  · exact h.ne_here hHere

theorem IsName.pushComp (h : IsName comp) : pushComp rooted comps comp = comps ++ [comp] := by
  rw [Python.pushComp, if_neg h.not_skip, if_pos (.inl h.ne_parent)]

theorem pushComp_parent {name : String} (h : IsName name) :
    pushComp rooted (comps ++ [name]) ".." = comps := by
  have hKept : ¬("..": String) = "" ∧ ¬(".." : String) = "." := by decide
  rw [pushComp, if_neg (not_or.mpr hKept), if_neg, List.dropLast_concat]
  simp [h.ne_parent]

theorem isName_of_head {c : Char} (h : comp.toList.head? = some c) (hDot : c ≠ '.') : IsName comp := by
  have hNot : ∀ {other : String}, comp = other → other.toList.head? = some c := by
    rintro other rfl
    exact h
  refine ⟨fun hEmpty => ?_, fun hHere => ?_, fun hParent => ?_⟩
  · cases hNot hEmpty
  · exact hDot (Option.some.inj (hNot hHere)).symm
  · exact hDot (Option.some.inj (hNot hParent)).symm

/-! ## Components that stay below a directory -/

theorem foldl_pushComp_append {rooted' : Bool} (hNames : ∀ name ∈ names, IsName name)
    (h : staysBelow names.length comps = true) :
    comps.foldl (pushComp rooted) (base ++ names) = base ++ comps.foldl (pushComp rooted') names ∧
      ∀ name ∈ comps.foldl (pushComp rooted') names, IsName name := by
  induction comps generalizing names with
  | nil => exact ⟨rfl, hNames⟩
  | cons comp comps ih =>
    rw [staysBelow] at h
    rw [List.foldl_cons, List.foldl_cons]
    by_cases hSkip : comp = "" ∨ comp = "."
    · rw [if_pos hSkip] at h
      rw [pushComp_skip hSkip, pushComp_skip hSkip]
      exact ih hNames h
    · rw [if_neg hSkip] at h
      by_cases hParent : comp = ".."
      · subst hParent
        rw [if_pos rfl] at h
        rcases List.eq_nil_or_concat names with rfl | ⟨names, last, rfl⟩
        · cases h
        · rw [List.concat_eq_append] at hNames h ⊢
          have hLast : IsName last := hNames last (by simp)
          rw [List.length_append, List.length_singleton, Nat.add_sub_cancel] at h
          rw [Bool.and_eq_true] at h
          rw [← List.append_assoc, pushComp_parent hLast, pushComp_parent hLast]
          exact ih (fun name hName => hNames name (by simp [hName])) h.2
      · have hName : IsName comp := ⟨fun h => hSkip (.inl h), fun h => hSkip (.inr h), hParent⟩
        rw [if_neg hParent] at h
        rw [hName.pushComp, hName.pushComp, List.append_assoc]
        apply ih
        · intro name hMem
          rcases List.mem_append.mp hMem with hMem | hMem
          · exact hNames name hMem
          · exact List.mem_singleton.mp hMem ▸ hName
        · rwa [List.length_append, List.length_singleton]

theorem foldl_pushComp_of_staysBelow (h : staysBelow 0 comps = true) :
    comps.foldl (pushComp rooted) base = base ++ namesBelow comps := by
  have hAppend : comps.foldl (pushComp rooted) (base ++ []) = base ++ namesBelow comps ∧
      ∀ name ∈ namesBelow comps, IsName name := foldl_pushComp_append nofun h
  rw [← hAppend.1, List.append_nil]

theorem isName_of_mem_namesBelow (h : staysBelow 0 comps = true) {name : String} (hName : name ∈ namesBelow comps) :
    IsName name := by
  have hNames : comps.foldl (pushComp true) ([] ++ []) = [] ++ namesBelow comps ∧
      ∀ name ∈ namesBelow comps, IsName name := foldl_pushComp_append nofun h
  exact hNames.2 name hName

/-- A path that leads out of a directory forgets which one it was. -/
theorem exists_of_not_staysBelow (hNames : ∀ name ∈ names, IsName name)
    (h : staysBelow names.length comps = false) :
    ∃ elsewhere, ∀ dir, IsName dir → comps.foldl (pushComp rooted) (base ++ dir :: names) = elsewhere := by
  induction comps generalizing names with
  | nil => cases h
  | cons comp comps ih =>
    rw [staysBelow] at h
    by_cases hSkip : comp = "" ∨ comp = "."
    · rw [if_pos hSkip] at h
      simpa only [List.foldl_cons, pushComp_skip hSkip] using ih hNames h
    · rw [if_neg hSkip] at h
      by_cases hParent : comp = ".."
      · subst hParent
        rw [if_pos rfl] at h
        rcases List.eq_nil_or_concat names with rfl | ⟨names, last, rfl⟩
        · refine ⟨comps.foldl (pushComp rooted) base, fun dir hDir => ?_⟩
          rw [List.foldl_cons, pushComp_parent hDir]
        · rw [List.concat_eq_append] at hNames h ⊢
          have hLast : IsName last := hNames last (by simp)
          have hOthers : ∀ name ∈ names, IsName name := fun name hName => hNames name (by simp [hName])
          obtain ⟨elsewhere, hElse⟩ := ih hOthers (by simpa using h)
          refine ⟨elsewhere, fun dir hDir => ?_⟩
          rw [List.foldl_cons, ← List.cons_append, ← List.append_assoc, pushComp_parent hLast]
          exact hElse dir hDir
      · have hName : IsName comp := ⟨fun h => hSkip (.inl h), fun h => hSkip (.inr h), hParent⟩
        rw [if_neg hParent] at h
        have hAll : ∀ name ∈ names ++ [comp], IsName name := by
          intro name hMem
          rcases List.mem_append.mp hMem with hMem | hMem
          · exact hNames name hMem
          · exact List.mem_singleton.mp hMem ▸ hName
        obtain ⟨elsewhere, hElse⟩ := ih hAll (by rwa [List.length_append, List.length_singleton])
        refine ⟨elsewhere, fun dir hDir => ?_⟩
        rw [List.foldl_cons, hName.pushComp, List.append_assoc, List.cons_append]
        exact hElse dir hDir

theorem staysBelow_name (h : IsName comp) (depth : Nat) :
    staysBelow depth (comp :: comps) = staysBelow (depth + 1) comps := by
  rw [staysBelow, if_neg h.not_skip, if_neg h.ne_parent]

/-- One step up at the end of a path does not lead out of a directory below the first one. -/
theorem staysBelow_succ (h : ".." ∉ comps.dropLast) (depth : Nat) : staysBelow (depth + 1) comps = true := by
  induction comps generalizing depth with
  | nil => rfl
  | cons comp comps ih =>
    cases comps with
    | nil => simp [staysBelow]
    | cons next comps =>
      rw [List.dropLast_cons_cons, List.mem_cons, not_or] at h
      rw [staysBelow, if_neg (Ne.symm h.1)]
      split
      · exact ih h.2 depth
      · exact ih h.2 (depth + 1)

/-- Without steps up, a path adds its names to the directory that it starts from. -/
theorem foldl_pushComp_of_notMem (h : ".." ∉ comps) :
    comps.foldl (pushComp rooted) base = base ++ comps.filter fun comp => comp ≠ "" ∧ comp ≠ "." := by
  induction comps generalizing base with
  | nil => simp
  | cons comp comps ih =>
    rw [List.mem_cons, not_or] at h
    rw [List.foldl_cons, ih h.2]
    by_cases hSkip : comp = "" ∨ comp = "."
    · rw [pushComp_skip hSkip, List.filter_cons_of_neg (by simpa [not_or, imp_iff_not_or] using hSkip)]
    · have hName : IsName comp := ⟨fun h => hSkip (.inl h), fun h => hSkip (.inr h), Ne.symm h.1⟩
      rw [hName.pushComp, List.filter_cons_of_pos (by simp [hName.nonempty, hName.ne_here]), List.append_assoc]
      rfl

/-! ## Components of a text -/

theorem splitOn_map {sep : Char} {f : Char → Char} (hSep : f sep = sep) (cs : List Char) :
    (cs.map f).splitOn sep = (cs.splitOn sep).flatMap fun part => (part.map f).splitOn sep := by
  induction cs with
  | nil => simp
  | cons c cs ih =>
    obtain ⟨first, rest, hParts⟩ := List.exists_cons_of_ne_nil (List.splitOn_ne_nil sep cs)
    rw [hParts, List.flatMap_cons] at ih
    rw [List.map_cons, List.splitOn_cons_eq_if_modifyHead, List.splitOn_cons_eq_if_modifyHead, ih, hParts]
    by_cases hc : c = sep
    · simp [hc, hSep]
    · have hSame : (c == sep) = false := by simpa using hc
      simp only [hSame, Bool.false_eq_true, if_false, List.modifyHead_cons, List.flatMap_cons, List.map_cons]
      rw [List.splitOn_cons_eq_if_modifyHead (f c) (first.map f)]
      split
      · rfl
      · obtain ⟨head, tail, hHead⟩ := List.exists_cons_of_ne_nil (List.splitOn_ne_nil sep (first.map f))
        rw [hHead]
        rfl

/-- A text without separators belongs to the last component. -/
theorem splitOn_append_of_notMem {sep : Char} {ext : List Char} (h : sep ∉ ext) (cs : List Char) :
    ∃ dirs last, (cs ++ ext).splitOn sep = dirs ++ [last ++ ext] := by
  induction cs with
  | nil => exact ⟨[], [], List.splitOn_eq_singleton h⟩
  | cons c cs ih =>
    obtain ⟨dirs, last, hParts⟩ := ih
    rw [List.cons_append, List.splitOn_cons_eq_if_modifyHead, hParts]
    split
    · exact ⟨[] :: dirs, last, rfl⟩
    · cases dirs with
      | nil => exact ⟨[], c :: last, rfl⟩
      | cons first dirs => exact ⟨(c :: first) :: dirs, last, rfl⟩

/-- A component that is neither the first nor the last one stands between two separators. -/
theorem exists_of_mem_inner {sep : Char} {cs first part : List Char} {parts : List (List Char)}
    (h : cs.splitOn sep = first :: parts) (hPart : part ∈ parts.dropLast) :
    ∃ x y, cs = x ++ sep :: (part ++ sep :: y) := by
  obtain ⟨before, after, hInner⟩ := List.append_of_mem hPart
  have hParts : parts ≠ [] := by
    rintro rfl
    cases hPart
  have hText : [sep].intercalate (cs.splitOn sep) = cs := List.intercalate_splitOn sep
  rw [h, ← List.dropLast_append_getLast hParts, hInner, intercalate_cons] at hText
  obtain ⟨y, hAfter⟩ : ∃ y, ((after ++ [parts.getLast hParts]).map (sep :: ·)).flatten = sep :: y := by
    cases after with
    | nil => exact ⟨_, rfl⟩
    | cons next after => exact ⟨_, rfl⟩
  refine ⟨first ++ (before.map (sep :: ·)).flatten, y, ?_⟩
  rw [← hText, ← hAfter]
  simp

/-! ## Joining -/

theorem leadingSlashes_append {a b : List Char} (h : (∃ c ∈ a, c ≠ '/') ∨ b.head? ≠ some '/') :
    leadingSlashes (String.ofList (a ++ b)) = leadingSlashes (String.ofList a) := by
  have hSame : (a ++ b).takeWhile (· == '/') = a.takeWhile (· == '/') := by
    rw [List.takeWhile_append]
    split
    · rename_i hLength
      have hAll : a.takeWhile (· == '/') = a := (List.takeWhile_prefix _).eq_of_length hLength
      rcases h with ⟨c, hc, hNe⟩ | hHead
      · rw [List.takeWhile_eq_self_iff] at hAll
        exact absurd (by simpa using hAll c hc) hNe
      · have hNone : b.takeWhile (· == '/') = [] := by
          cases b with
          | nil => rfl
          | cons c b => exact List.takeWhile_cons_of_neg (by simpa using hHead)
        rw [hNone, hAll, List.append_nil]
    · rfl
  rw [leadingSlashes, leadingSlashes, String.toList_ofList, String.toList_ofList, hSame]

theorem pushComps_append (slashes : Nat) (comps : List String) (a b : List Char) :
    pushComps slashes comps (String.ofList (a ++ '/' :: b)) =
      pushComps slashes (pushComps slashes comps (String.ofList a)) (String.ofList b) := by
  simp only [pushComps, splitOn, String.toList_ofList, List.splitOn_append_cons_self, List.map_append,
    List.foldl_append]

theorem pushComps_empty (slashes : Nat) (comps : List String) : pushComps slashes comps "" = comps := by
  have hParts : splitOn "" '/' = [""] := by decide
  rw [pushComps, hParts, List.foldl_cons, pushComp_skip (.inl rfl), List.foldl_nil]

theorem head_of_startsWith {b : String} (h : startsWith b "/" = false) : b.toList.head? ≠ some '/' := by
  intro hHead
  have hStarts : startsWith b "/" = true := by
    rw [startsWith_iff (c := '/') (by decide)]
    exact ⟨b.toList.tail, (List.eq_cons_of_mem_head? hHead)⟩
  rw [h] at hStarts
  cases hStarts

/-- A relative path goes on from where the first one ends. -/
theorem normalPath_join {a b : String} (h : startsWith b "/" = false) : normalPath (pathJoin a b) =
    ⟨leadingSlashes a, pushComps (leadingSlashes a) (normalPath a).comps b⟩ := by
  have hRelative : leadingSlashes (a ++ b) = leadingSlashes a := by
    have hLead := leadingSlashes_append (a := a.toList) (.inr (head_of_startsWith h))
    rwa [String.ofList_append, String.ofList_toList, String.ofList_toList] at hLead
  rw [pathJoin, if_neg (by simp [h])]
  by_cases hEmpty : a = ""
  · rw [hEmpty, String.empty_append] at hRelative
    rw [hEmpty, if_pos (.inl rfl), String.empty_append, normalPath, hRelative, normalPath, pushComps_empty]
  · by_cases hEnds : endsWith a "/" = true
    · obtain ⟨before, hBefore⟩ := List.isSuffixOf_iff_suffix.mp hEnds
      have hDir : a = String.ofList (before ++ ['/']) := by
        rw [← String.toList_inj]
        simp [← hBefore]
      have hText : a ++ b = String.ofList (before ++ '/' :: b.toList) := by
        rw [← String.toList_inj]
        simp [← hBefore]
      have hComps : ∀ slashes, pushComps slashes [] a = pushComps slashes [] (String.ofList before) := by
        intro slashes
        rw [hDir, pushComps_append]
        exact pushComps_empty slashes _
      rw [if_pos (.inr hEnds), normalPath, hRelative, hText, pushComps_append, String.ofList_toList, ← hComps]
      rfl
    · have hText : a ++ "/" ++ b = String.ofList (a.toList ++ '/' :: b.toList) := by
        rw [← String.toList_inj]
        simp
      have hLead : leadingSlashes (String.ofList (a.toList ++ '/' :: b.toList)) = leadingSlashes a := by
        have hNonempty : a.toList ≠ [] := by simpa using hEmpty
        rw [leadingSlashes_append, String.ofList_toList]
        refine .inl ⟨a.toList.getLast hNonempty, List.getLast_mem hNonempty, fun hLast => hEnds ?_⟩
        rw [endsWith, List.isSuffixOf_iff_suffix]
        exact ⟨a.toList.dropLast, by rw [← List.dropLast_append_getLast hNonempty, hLast]; simp⟩
      rw [if_neg (by simp [hEmpty, hEnds]), normalPath, hText, hLead, pushComps_append, String.ofList_toList,
        String.ofList_toList]
      rfl

theorem normalPath_join_of_staysBelow {a b : String} (h : startsWith b "/" = false)
    (hStays : staysBelow 0 (splitOn b '/') = true) : normalPath (pathJoin a b) =
      ⟨(normalPath a).slashes, (normalPath a).comps ++ namesBelow (splitOn b '/')⟩ := by
  rw [normalPath_join h, pushComps, foldl_pushComp_of_staysBelow hStays]
  rfl

/-- A path that never leads out of the directory that it starts from stays within it. -/
theorem normalPath_join_within {a b : String} (h : startsWith b "/" = false)
    (hStays : staysBelow 0 (splitOn b '/') = true) :
    (normalPath (pathJoin a b)).Within (normalPath a) := by
  rw [normalPath_join_of_staysBelow h hStays]
  exact ⟨rfl, _, rfl, fun hMem => (isName_of_mem_namesBelow hStays hMem).ne_parent rfl⟩

end Forge.Python
